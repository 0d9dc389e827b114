import MiniDB.Pages.Leaf
import MiniDB.Pages.Internal

/-!
# Trees stored in pages

`Stored m rowSize t next` says that the pages `m` hold the tree `t`: every node of `t` lives on the
page of its label, the leaves are linked from left to right and the last one leads to `next`, and
every node below the root is marked as a child of its parent.

* `LeafPage`, `InternalPage`, `ChildOf`: what a page says about its node.
* `Stored`: the whole tree.
* `Hangs`: the children of one node.
* `Stored.congr`: what a stored tree depends on.
* `Stored.leafFor`, `Stored.chain`: the leaf for a key, and the leaf links.
-/

namespace MiniDB

open BPlusTree

/-- A tree over keys and row bytes, of height `h`. -/
abbrev PageTree (h : ℕ) := Tree Int64 (List UInt8) h

/-- A leaf page with the given cells that leads to `next`. -/
structure LeafPage (rowSize : ℕ) (p : Page) (cells : List Cell) (next : ℕ) : Prop where
  type : nodeType p = nodeLeaf
  cells : leafCells rowSize p = cells
  next : nextLeaf p = next

/-- An internal page with the given keys and children. -/
structure InternalPage (p : Page) (seps : List Int64) (children : List ℕ) : Prop where
  type : nodeType p = nodeInternal
  keys : internalKeys p = seps
  children : internalChildren p = children

/-- A page that is not the root and names its parent. -/
structure ChildOf (p : Page) (parent : ℕ) : Prop where
  isRoot : isRoot p = 0
  parent : parentPointer p = parent

/-- The pages `m` hold the tree; the last leaf leads to `next`. -/
def Stored (m : ℕ → Page) (rowSize : ℕ) : {h : ℕ} → PageTree h → ℕ → Prop
  | 0, l, next => LeafPage rowSize (m l.page) l.cells next
  | _ + 1, n, next => InternalPage (m n.page) n.kids.seps (n.kids.children.map Tree.page) ∧
      n.kids.Linked (fun c e => Stored m rowSize c e ∧ ChildOf (m c.page) n.page) Tree.entry next

variable {m m' : ℕ → Page} {rowSize : ℕ} {p q : Page}

theorem InternalPage.length_seps {seps : List Int64} {children : List ℕ}
    (h : InternalPage p seps children) : numCells p = seps.length := by
  rw [← h.keys, length_internalKeys]

theorem LeafPage.length_cells {cells : List Cell} {next : ℕ} (h : LeafPage rowSize p cells next) :
    numCells p = cells.length := by
  rw [← h.cells, length_leafCells]

/-! ## What a stored tree depends on -/

/-- Two pages that agree but for the root flag and the parent pointer. -/
structure SameNode (p q : Page) : Prop where
  body : SameBody p q
  type : (header p).type = (header q).type
  cells : (header p).cells = (header q).cells
  link : (header p).link = (header q).link

theorem SameNode.refl (p : Page) : SameNode p p := ⟨SameBody.refl p, rfl, rfl, rfl⟩

theorem SameNode.trans {r : Page} (h : SameNode p q) (h' : SameNode q r) : SameNode p r :=
  ⟨h.body.trans h'.body, h.type.trans h'.type, h.cells.trans h'.cells, h.link.trans h'.link⟩

theorem sameNode_setParentPointer (p : Page) {n : ℕ} (hn : Fits n) :
    SameNode (setParentPointer p n) p :=
  ⟨sameBody_setParentPointer p n, by rw [header_setParentPointer p hn],
    by rw [header_setParentPointer p hn], by rw [header_setParentPointer p hn]⟩

theorem LeafPage.congr {cells : List Cell} {next : ℕ} (h : LeafPage rowSize p cells next)
    (hq : SameNode q p) : LeafPage rowSize q cells next where
  type := hq.type.trans h.type
  cells := (leafCells_congr hq.body hq.cells).trans h.cells
  next := hq.link.trans h.next

theorem InternalPage.congr {seps : List Int64} {children : List ℕ}
    (h : InternalPage p seps children) (hq : SameNode q p) : InternalPage q seps children where
  type := hq.type.trans h.type
  keys := (internalKeys_congr hq.body hq.cells).trans h.keys
  children := (internalChildren_congr hq.body hq.cells hq.link).trans h.children

/-- A stored tree depends on the pages of its nodes, and for its root not on the root flag and the
parent pointer. -/
theorem Stored.congr : {h : ℕ} → {t : PageTree h} → {next : ℕ} → Stored m rowSize t next →
    SameNode (m' t.page) (m t.page) → (∀ p ∈ t.below, m' p = m p) → Stored m' rowSize t next
  | 0, _, _, hst, hroot, _ => LeafPage.congr hst hroot
  | h + 1, n, next, hst, hroot, hbelow => by
    refine ⟨hst.1.congr hroot, hst.2.mono fun c hc e hce => ?_⟩
    have hlab : ∀ p ∈ c.labels, m' p = m p := fun p hp =>
      hbelow p (Multiset.mem_of_le (Tree.labels_le_below hc) hp)
    have hpage : m' c.page = m c.page := hlab _ (Tree.page_mem_labels c)
    refine ⟨hce.1.congr (hpage ▸ SameNode.refl _) fun p hp =>
      hlab p (Multiset.mem_of_le (Tree.below_le_labels c) hp), ?_⟩
    rw [hpage]
    exact hce.2

/-- A stored tree is untouched by writes to other pages. -/
theorem Stored.frame {h : ℕ} {t : PageTree h} {next : ℕ} (hst : Stored m rowSize t next)
    (hm : ∀ p ∈ t.labels, m' p = m p) : Stored m' rowSize t next :=
  hst.congr (hm _ (Tree.page_mem_labels t) ▸ SameNode.refl _) fun p hp =>
    hm p (Multiset.mem_of_le (Tree.below_le_labels t) hp)

/-- **Where a stored tree starts and where it leads to is written on its pages.** -/
theorem Stored.ends : {h h' : ℕ} → {t : PageTree h} → {t' : PageTree h'} → {e e' : ℕ} →
    Stored m rowSize t e → Stored m rowSize t' e' → t.page = t'.page →
    e = e' ∧ t.entry = t'.entry
  | 0, 0, t, t', _, _, hst, hst', hpage => by
    have hnext : nextLeaf (m t.page) = _ := hst.next
    rw [hpage] at hnext
    exact ⟨hnext.symm.trans hst'.next, hpage⟩
  | 0, _ + 1, t, _, _, _, hst, hst', hpage => by
    have htype : nodeType (m t.page) = nodeLeaf := LeafPage.type hst
    rw [hpage, hst'.1.type] at htype
    exact absurd htype (by decide)
  | _ + 1, 0, t, _, _, _, hst, hst', hpage => by
    have htype : nodeType (m t.page) = nodeInternal := hst.1.type
    rw [hpage, LeafPage.type hst'] at htype
    exact absurd htype (by decide)
  | _ + 1, _ + 1, t, t', _, _, hst, hst', hpage => by
    have hchildren : internalChildren (m t.page) = t.kids.children.map Tree.page := hst.1.children
    rw [hpage, hst'.1.children] at hchildren
    exact Kids.Linked.ends hst.2 hst'.2 hchildren.symm fun c _ d e e' hcd hc hd =>
      Stored.ends hc.1 hd.1 hcd

/-- Where a stored tree leads to is written on its last leaf. -/
theorem Stored.next_unique {h : ℕ} {t : PageTree h} {e e' : ℕ} (hst : Stored m rowSize t e)
    (hst' : Stored m rowSize t e') : e = e' := (hst.ends hst' rfl).1

/-! ## Children -/

/-- The children of one node are stored, linked, and marked as children of `parent`. -/
def Hangs (m : ℕ → Page) (rowSize : ℕ) {h : ℕ} (parent : ℕ) (kids : Kids Int64 (PageTree h))
    (next : ℕ) : Prop :=
  kids.Linked (fun c e => Stored m rowSize c e ∧ ChildOf (m c.page) parent) Tree.entry next

theorem Hangs.frame {h : ℕ} {kids : Kids Int64 (PageTree h)} {parent next : ℕ}
    (hk : Hangs m rowSize parent kids next)
    (hm : ∀ c ∈ kids.children, ∀ q ∈ c.labels, m' q = m q) : Hangs m' rowSize parent kids next :=
  hk.mono fun c hc _ hce =>
    ⟨hce.1.frame (hm c hc), by rw [hm c hc _ (Tree.page_mem_labels c)]; exact hce.2⟩

/-- Children move to another parent when their parent pointers are set. -/
theorem Hangs.move {h : ℕ} {kids : Kids Int64 (PageTree h)} {parent parent' next : ℕ}
    (hk : Hangs m rowSize parent kids next) (hfits : Fits parent')
    (hroot : ∀ c ∈ kids.children, m' c.page = setParentPointer (m c.page) parent')
    (hbelow : ∀ c ∈ kids.children, ∀ q ∈ c.below, m' q = m q) :
    Hangs m' rowSize parent' kids next := by
  refine hk.mono fun c hc _ hce => ?_
  have hsame : SameNode (m' c.page) (m c.page) := hroot c hc ▸ sameNode_setParentPointer _ hfits
  refine ⟨hce.1.congr hsame (hbelow c hc), ?_, ?_⟩
  · rw [hroot c hc, isRoot_eq, header_setParentPointer _ hfits]
    exact hce.2.isRoot
  · rw [hroot c hc, parentPointer_eq, header_setParentPointer _ hfits]

/-- Only the root can be marked as one. -/
theorem Stored.isRoot_below : {h : ℕ} → {t : PageTree h} → {next : ℕ} →
    Stored m rowSize t next → ∀ q ∈ t.below, isRoot (m q) = 0
  | 0, _, _, _, _, hq => absurd hq (Multiset.notMem_zero _)
  | _ + 1, _, _, hst, q, hq => by
    obtain ⟨c, hc, hqc⟩ := Tree.mem_sum_labels.mp hq
    obtain ⟨e, hstc, hchild⟩ := hst.2.exists_of_mem hc
    rw [Tree.labels_eq] at hqc
    rcases Multiset.mem_add.mp hqc with hqc | hqc
    · rw [Multiset.mem_singleton.mp hqc]
      exact hchild.isRoot
    · exact hstc.isRoot_below q hqc

/-- Every page below the root is marked as a child of a page of the tree. -/
theorem Stored.childOf_below : {h : ℕ} → {t : PageTree h} → {next : ℕ} →
    Stored m rowSize t next → ∀ q ∈ t.below, ∃ parent ∈ t.labels, ChildOf (m q) parent
  | 0, _, _, _, _, hq => absurd hq (Multiset.notMem_zero _)
  | _ + 1, n, _, hst, q, hq => by
    obtain ⟨c, hc, hqc⟩ := Tree.mem_sum_labels.mp hq
    obtain ⟨e, hstc, hchild⟩ := hst.2.exists_of_mem hc
    rw [Tree.labels_eq] at hqc
    rcases Multiset.mem_add.mp hqc with hqc | hqc
    · rw [Multiset.mem_singleton.mp hqc]
      exact ⟨n.page, Tree.page_mem_labels n, hchild⟩
    · obtain ⟨parent, hparent, hmark⟩ := hstc.childOf_below q hqc
      exact ⟨parent, Multiset.mem_of_le (Tree.labels_le_of_mem hc) hparent, hmark⟩

/-- **Every child names its parent.** -/
theorem Stored.parents : {h : ℕ} → {t : PageTree h} → {next : ℕ} → Stored m rowSize t next →
    ∀ q ∈ t.labels, nodeType (m q) = nodeInternal →
      ∀ c ∈ internalChildren (m q), parentPointer (m c) = q
  | 0, l, _, hst, q, hq, htype, _, _ => by
    rw [Multiset.mem_singleton.mp hq, LeafPage.type hst] at htype
    exact absurd htype (by decide)
  | _ + 1, n, _, hst, q, hq, htype, c, hc => by
    rcases Multiset.mem_add.mp hq with hq | hq
    · rw [Multiset.mem_singleton.mp hq, hst.1.children] at hc
      obtain ⟨d, hd, rfl⟩ := List.mem_map.mp hc
      obtain ⟨e, -, hchild⟩ := hst.2.exists_of_mem hd
      rw [Multiset.mem_singleton.mp hq]
      exact hchild.parent
    · obtain ⟨d, hd, hqd⟩ := Tree.mem_sum_labels.mp hq
      obtain ⟨e, hstd, -⟩ := hst.2.exists_of_mem hd
      exact hstd.parents q hqd htype c hc

/-- The children of an internal page are pages of the tree. -/
theorem Stored.mem_labels_of_child : {h : ℕ} → {t : PageTree h} → {next : ℕ} →
    Stored m rowSize t next → ∀ {q : ℕ}, q ∈ t.labels → nodeType (m q) = nodeInternal →
      ∀ {c : ℕ}, c ∈ internalChildren (m q) → c ∈ t.labels
  | 0, l, _, hst, q, hq, htype, _, _ => by
    rw [Multiset.mem_singleton.mp hq, LeafPage.type hst] at htype
    exact absurd htype (by decide)
  | _ + 1, n, _, hst, q, hq, htype, c, hc => by
    rcases Multiset.mem_add.mp hq with hq | hq
    · rw [Multiset.mem_singleton.mp hq, hst.1.children] at hc
      obtain ⟨d, hd, rfl⟩ := List.mem_map.mp hc
      exact Multiset.mem_of_le (Tree.labels_le_of_mem hd) (Tree.page_mem_labels d)
    · obtain ⟨d, hd, hqd⟩ := Tree.mem_sum_labels.mp hq
      obtain ⟨e, hstd, -⟩ := hst.2.exists_of_mem hd
      exact Multiset.mem_of_le (Tree.labels_le_of_mem hd)
        (hstd.mem_labels_of_child hqd htype hc)

/-! ## Leaves -/

/-- The leaf for a key is on its page. -/
theorem Stored.leafFor {key : Int64} : {h : ℕ} → {t : PageTree h} → {next : ℕ} →
    Stored m rowSize t next →
    ∃ e, LeafPage rowSize (m (t.leafFor key).page) (t.leafFor key).cells e
  | 0, _, next, hst => ⟨next, hst⟩
  | _ + 1, n, _, hst => by
    obtain ⟨e, hpick, -⟩ := hst.2.exists_of_mem (Kids.pick_mem_children key n.kids)
    exact hpick.leafFor

/-- Every leaf of a stored tree is on its page. -/
theorem Stored.leafPage_of_mem {l : Leaf Int64 (List UInt8)} : {h : ℕ} → {t : PageTree h} →
    {next : ℕ} → Stored m rowSize t next → l ∈ t.leaves →
    ∃ e, LeafPage rowSize (m l.page) l.cells e
  | 0, _, next, hst, hl => by
    rw [List.mem_singleton.mp hl]
    exact ⟨next, hst⟩
  | _ + 1, _, _, hst, hl => by
    rw [Tree.leaves_succ] at hl
    obtain ⟨c, hc, hlc⟩ := List.mem_flatMap.mp hl
    obtain ⟨e, hstc, -⟩ := hst.2.exists_of_mem hc
    exact hstc.leafPage_of_mem hlc

/-- The leaves in a list are on their pages and each leads to the next one. -/
def Chain (m : ℕ → Page) (rowSize : ℕ) : List (Leaf Int64 (List UInt8)) → ℕ → Prop
  | [], _ => True
  | [l], next => LeafPage rowSize (m l.page) l.cells next
  | l :: l' :: ls, next => LeafPage rowSize (m l.page) l.cells l'.page ∧
      Chain m rowSize (l' :: ls) next

theorem Chain.congr {ls : List (Leaf Int64 (List UInt8))} {next : ℕ} (h : Chain m rowSize ls next)
    (hm : ∀ l ∈ ls, m' l.page = m l.page) : Chain m' rowSize ls next := by
  induction ls with
  | nil => trivial
  | cons l ls ih =>
    cases ls with
    | nil =>
      show LeafPage rowSize (m' l.page) l.cells next
      rw [hm l List.mem_cons_self]
      exact h
    | cons l' ls =>
      refine ⟨?_, ih h.2 fun d hd => hm d (List.mem_cons_of_mem _ hd)⟩
      rw [hm l List.mem_cons_self]
      exact h.1

theorem Chain.append {ls : List (Leaf Int64 (List UInt8))} {l : Leaf Int64 (List UInt8)}
    {ls' : List (Leaf Int64 (List UInt8))} {next : ℕ} (h : Chain m rowSize ls l.page)
    (h' : Chain m rowSize (l :: ls') next) : Chain m rowSize (ls ++ l :: ls') next := by
  induction ls with
  | nil => exact h'
  | cons a ls ih =>
    cases ls with
    | nil => exact ⟨h, h'⟩
    | cons b ls => exact ⟨h.1, ih h.2⟩

/-- The last leaf leads to `next`. -/
theorem Chain.last {ls : List (Leaf Int64 (List UInt8))} {next q : ℕ} (h : Chain m rowSize ls next)
    (hq : (ls.map Leaf.page).getLast? = some q) : nextLeaf (m q) = next := by
  induction ls with
  | nil => cases hq
  | cons l ls ih =>
    cases ls with
    | nil =>
      cases hq
      exact LeafPage.next h
    | cons l' ls =>
      rw [List.map_cons, List.map_cons, List.getLast?_cons_cons] at hq
      exact ih h.2 hq

/-- **The leaf links run through the leaves of a stored tree from left to right.** -/
theorem Stored.chain : {h : ℕ} → {t : PageTree h} → {next : ℕ} → Stored m rowSize t next →
    Chain m rowSize t.leaves next
  | 0, _, _, hst => hst
  | h + 1, n, next, hst => by
    rw [Tree.leaves_succ]
    have hlink := hst.2
    generalize n.kids = k at hlink
    induction k with
    | one c => simpa using hlink.1.chain
    | cons c s t ih =>
      have hhead : ∃ l ls, t.children.flatMap Tree.leaves = l :: ls ∧ l.page = t.head.entry := by
        have hentry := Tree.head?_leaves t.head
        have hne := Tree.leaves_ne_nil t.head
        obtain ⟨l, ls, hl⟩ := List.exists_cons_of_ne_nil hne
        rw [hl] at hentry
        refine ⟨l, ls ++ t.children.tail.flatMap Tree.leaves, ?_, Option.some_inj.mp hentry⟩
        rw [t.children_eq_head_cons, List.flatMap_cons, hl, List.cons_append]
        rfl
      obtain ⟨l, ls, hl, hpage⟩ := hhead
      have hrest := ih hlink.2
      have hfirst := hlink.1.1.chain
      rw [Kids.children_cons, List.flatMap_cons]
      rw [hl] at hrest ⊢
      exact Chain.append (hpage ▸ hfirst) hrest

end MiniDB
