import MiniDB.BPlusTree.PassUp
import MiniDB.Sessions.Splitting

/-!
# What a split of an internal node keeps

A child of a full node was cut in two, and the node is split to take the separator.  However many of
the nodes above are full as well, the level of the child changes in the place of the child only: its
two halves are there, with the separator between them.

* `UnderFull`, `JustSplit`: the state in which `split_internal_node` is called;
  `splitLeafStep_justSplit`: a split of a leaf comes to it.
* `OnWay`, `Rises`: the subtrees the separator passes, and what the halves make of them.
* `JustSplit.exists_risen`, `JustSplit.exists_represents`: the way up below the root, and all of it.
* `splitInternalNode_sequence`: the theorem.
-/

namespace MiniDB

open BPlusTree Pager

/-- In the tree `t`, the node `old` with the range `[lo, hi)` is a child of the full node `p`. -/
structure UnderFull {d j : ℕ} (t : PageTree (d + (j + 1))) (p : PageTree (d + 1))
    (old : PageTree d) (lo : WithBot Int64) (hi : WithTop Int64) : Prop where
  node : p ∈ (t.above d j).children
  full : p.kids.seps.length = internalNodeMaxKeys
  child : old ∈ p.kids.children
  range : (lo, hi, old) ∈ (t.level d (j + 1)).ranges ⊥ ⊤

/-- The tree `t` was stored in `s₀`, and since then the child `old` of the full node `p` was cut
into `left` and `right`, with `sep` between them; `p` does not know yet.  The halves are on the page
of `old` and on pages that are new or were below `old`. -/
structure JustSplit (s₀ s : Pager) (rowSize : ℕ) {d j : ℕ} (t : PageTree (d + (j + 1)))
    (p : PageTree (d + 1)) (old left right : PageTree d) (lo : WithBot Int64) (sep : Int64)
    (hi : WithTop Int64) : Prop where
  tree : Represents s₀ rowSize ⟨d + (j + 1), t⟩
  place : UnderFull t p old lo hi
  inside : lo < sep ∧ (sep : WithTop Int64) < hi
  ordered : left.Ordered lo sep ∧ right.Ordered sep hi
  sized : left.Sized (leafNodeMaxCells rowSize) internalNodeMaxKeys ∧
    right.Sized (leafNodeMaxCells rowSize) internalNodeMaxKeys
  page : left.page = old.page
  entry : left.entry = old.entry
  labels : Relabels old.labels (left.labels + right.labels) s₀.numPages s.numPages
  sound : s.Sound
  numPages : s₀.numPages ≤ s.numPages
  kept : ∀ q < s₀.numPages, q ∉ old.labels → s.page q = s₀.page q
  hangs : ∀ e, Stored s₀.page rowSize old e →
    Hangs s.page rowSize p.page (.cons left sep (.one right)) e

variable {s₀ s s' : Pager} {rowSize d j : ℕ} {t : PageTree (d + (j + 1))} {p : PageTree (d + 1)}
  {old left right : PageTree d} {lo : WithBot Int64} {sep : Int64} {hi : WithTop Int64}

/-- What comes of a subtree with the halves in the place of the node that was cut, and how many
pages are in use then. -/
abbrev risen (s : Pager) (left : PageTree d) (sep : Int64) (right : PageTree d) (i : ℕ)
    (b : PageTree (d + i)) : Ins Int64 (PageTree (d + i)) × ℕ :=
  passUp internalNodeMaxKeys sep (.split left sep right) s.numPages i b

/-- The same for the children of the node above. -/
abbrev risenKids (s : Pager) (left : PageTree d) (sep : Int64) (right : PageTree d) (i : ℕ)
    (n : PageTree (d + (i + 1))) : Kids Int64 (PageTree (d + i)) × ℕ :=
  passUpKids internalNodeMaxKeys sep (.split left sep right) s.numPages i n

/-- The same for the whole tree. -/
abbrev risenRoot (s : Pager) (left : PageTree d) (sep : Int64) (right : PageTree d) (j : ℕ)
    (t : PageTree (d + (j + 1))) : PageTreeAny × ℕ :=
  passUpRoot internalNodeMaxKeys sep (.split left sep right) s.numPages j t

/-! ## The node and its ancestors -/

/-- Every node one level above is stored. -/
theorem Stored.exists_of_mem_above {m : ℕ → Page} {p : PageTree (d + 1)} : {j : ℕ} →
    {t : PageTree (d + (j + 1))} → {next : ℕ} → Stored m rowSize t next →
    p ∈ (t.above d j).children → ∃ e, Stored m rowSize p e
  | 0, t, next, hst, hp => by
    obtain rfl : p = t := List.mem_singleton.mp hp
    exact ⟨next, hst⟩
  | j + 1, t, _, hst, hp => by
    rw [Tree.above_succ, Kids.children_bind] at hp
    obtain ⟨b, hb, hpb⟩ := List.mem_flatMap.mp hp
    obtain ⟨e, hstb, -⟩ := hst.2.exists_of_mem hb
    exact Stored.exists_of_mem_above hstb hpb

theorem UnderFull.mem_level (h : UnderFull t p old lo hi) : old ∈ (t.level d (j + 1)).children := by
  rw [← Kids.map_ranges ⊥ ⊤]
  exact List.mem_map_of_mem h.range

/-- The child is stored, and the full node is on the page that it names as its parent. -/
theorem UnderFull.exists_stored (h : UnderFull t p old lo hi)
    (ht : Represents s rowSize ⟨d + (j + 1), t⟩) :
    numCells (s.page p.page) = internalNodeMaxKeys ∧
      ∃ e, Stored s.page rowSize old e ∧ ChildOf (s.page old.page) p.page := by
  obtain ⟨e, hp⟩ := Stored.exists_of_mem_above ht.stored h.node
  exact ⟨hp.1.length_seps.trans h.full, hp.2.exists_of_mem h.child⟩

/-- The pages from the full node up to the root are none of those of the child. -/
theorem UnderFull.exists_ancestry (h : UnderFull t p old lo hi)
    (ht : Represents s rowSize ⟨d + (j + 1), t⟩) :
    ∃ ns, Ancestry s.page (p.page :: ns) ∧ (p.page :: ns).Nodup ∧
      ∀ q ∈ p.page :: ns, q < s.numPages ∧ q ∉ old.labels ∧
        numCells (s.page q) ≤ internalNodeMaxKeys := by
  obtain ⟨n, ns, hchild, hup, hnd, hpages⟩ := ht.exists_ancestry h.mem_level
  obtain ⟨-, e, -, hchild'⟩ := h.exists_stored ht
  obtain rfl : p.page = n := hchild'.parent.symm.trans hchild.parent
  exact ⟨ns, hup, hnd, hpages⟩

/-- In the state of the split the node is full, and it has its ancestors, none of which is too full
or a page of a half. -/
theorem JustSplit.exists_ancestors (h : JustSplit s₀ s rowSize t p old left right lo sep hi) :
    numCells (s.page p.page) = internalNodeMaxKeys ∧
      ∃ ns, HasAncestors s left.page p.page ns ∧ right.page ∉ p.page :: ns ∧
        ∀ q ∈ p.page :: ns, numCells (s.page q) ≤ internalNodeMaxKeys := by
  obtain ⟨hfull, e, hst, -⟩ := h.place.exists_stored h.tree
  obtain ⟨ns, hup, hnd, hpages⟩ := h.place.exists_ancestry h.tree
  have hkept : ∀ q ∈ p.page :: ns, s.page q = s₀.page q := fun q hq =>
    h.kept q (hpages q hq).1 (hpages q hq).2.1
  have hhalf : ∀ q ∈ left.labels + right.labels, q ∉ p.page :: ns := by
    intro q hq hmem
    rcases (h.labels.mem q hq).2 with hold | hge
    · exact (hpages q hmem).2.1 hold
    · exact absurd (hpages q hmem).1 (not_lt.mpr hge)
  have hleft := hhalf _ (Multiset.mem_add.mpr (Or.inl (Tree.page_mem_labels left)))
  have hright := hhalf _ (Multiset.mem_add.mpr (Or.inr (Tree.page_mem_labels right)))
  obtain ⟨e', -, hchild⟩ := (h.hangs e hst).exists_of_mem List.mem_cons_self
  refine ⟨?_, ns, ⟨hchild, hup.congr hkept, List.nodup_cons.mpr ⟨hleft, hnd⟩, fun q hq =>
    (hpages q hq).1.trans_le h.numPages⟩, hright, fun q hq => ?_⟩
  · rw [hkept _ List.mem_cons_self]
    exact hfull
  · rw [hkept q hq]
    exact (hpages q hq).2.2

/-- **`split_leaf_node` comes to this state**: it cuts a full leaf below a full node and has the
node split. -/
theorem splitLeafStep_justSplit {table : Table} {types : List ColumnType} {key : Int64} {row : Row}
    {t : PageTree (0 + (j + 1))} {p : PageTree (0 + 1)} {old : PageTree 0} (hs : s.Sound)
    (hreads : Reads s table types) (hmax : 1 ≤ leafNodeMaxCells (rowWidth types))
    (ht : Represents s (rowWidth types) ⟨0 + (j + 1), t⟩) (hplace : UnderFull t p old lo hi)
    (hlo : lo ≤ key) (hhi : (key : WithTop Int64) < hi)
    (hcells : old.cells.length = leafNodeMaxCells (rowWidth types))
    (hkey : ∀ d ∈ old.cells, d.1 ≠ key) (hrow : (rowBytes row.values).length = rowWidth types)
    (hroom : s.numPages < tablesMaxPages) :
    ∃ s' left right sep, splitLeafStep s table old.page key row (rowWidth types) =
        .ok (.inl ⟨s', p.page, sep, left.page, right.page⟩) ∧
      s'.numPages = s.numPages + 1 ∧
      JustSplit s s' (rowWidth types) t p old left right lo sep hi := by
  obtain ⟨hfull, e, hst, hchild⟩ := hplace.exists_stored ht
  obtain ⟨ns, -, -, hpages⟩ := hplace.exists_ancestry ht
  obtain ⟨hparent, hnot, -⟩ := hpages p.page List.mem_cons_self
  have hlt : old.page < s.numPages := ht.good.pages _
    (Multiset.mem_of_le (Tree.labels_le_of_mem_level hplace.mem_level) (Tree.page_mem_labels old))
  -- the leaf is in the range the tree gives it
  have hlevel := Tree.Ordered.level (j := j + 1) ht.good.ordered
  obtain ⟨hpick, hbounds⟩ := Kids.eq_of_mem_ranges hlevel hplace.range hlo hhi
  have hold : old.Ordered lo hi := by
    have hord := hlevel.pick_bounds key
    rwa [hpick, hbounds] at hord
  rcases insertLeaf_cases (leafNodeMaxCells (rowWidth types)) key (rowBytes row.values) s.numPages
    old with ⟨hroom', -⟩ | ⟨-, a, c, b, hins, ha, hsplit⟩
  · exact absurd hcells hroom'.ne
  have hord := ordered_insertLeaf (v := rowBytes row.values) hmax s.numPages hold hlo hhi hkey
  have hfit : old.Sized (leafNodeMaxCells (rowWidth types)) internalNodeMaxKeys := hcells.le
  have hsized := sized_insertLeaf key (rowBytes row.values) hmax s.numPages hfit
  rw [hsplit] at hord hsized
  obtain ⟨hsep, hsep', hleft, hright⟩ := hord
  obtain ⟨s', hstep, hnum, hev, -, hpageL, hpageR⟩ := splitLeafNode_child hs hreads hst hchild
    hcells hold.1 hkey hrow hins ha hroom hlt hparent
  have hkept : ∀ q < s.numPages, q ∉ old.labels → s'.page q = s.page q := by
    intro q hq hnot'
    refine hev.page q ?_
    rintro (rfl | rfl)
    · exact hnot' (Tree.page_mem_labels old)
    · exact lt_irrefl _ hq
  have hfull' : internalNodeMaxKeys ≤ numCells (s'.page p.page) := by
    rw [hkept _ hparent hnot]
    exact hfull.ge
  refine ⟨s', .leaf old.page a, .leaf s.numPages (c :: b), c.1,
    hstep.trans (congrArg Except.ok (promoteInto_of_ge hfull')), hnum, ht, hplace, ⟨hsep, hsep'⟩,
    ⟨hleft, hright⟩,
    ⟨hsized _ List.mem_cons_self, hsized _ (List.mem_cons_of_mem _ List.mem_cons_self)⟩, rfl, rfl,
    ⟨?_, fun q hq => ?_⟩, hev.sound, hnum ▸ Nat.le_succ _, hkept, fun e' he' => ?_⟩
  · exact Multiset.nodup_add.mpr ⟨Multiset.nodup_singleton _, Multiset.nodup_singleton _,
      Multiset.disjoint_singleton.mpr fun hq => hlt.ne' (Multiset.mem_singleton.mp hq)⟩
  · rw [hnum]
    rcases Multiset.mem_add.mp hq with hq | hq
    · rw [Multiset.mem_singleton.mp hq]
      exact ⟨Nat.lt_succ_of_lt hlt, Or.inl (Tree.page_mem_labels old)⟩
    · rw [Multiset.mem_singleton.mp hq]
      exact ⟨Nat.lt_succ_self _, Or.inr le_rfl⟩
  · rw [Stored.next_unique he' hst]
    exact ⟨hpageL, hpageR⟩

/-! ## The way to the node that was cut -/

/-- The subtree `b` is stored in the range `[lo', hi')`, and in it the way to `sep` passes `old`,
which has the range `[lo, hi)`. -/
structure OnWay (s₀ : Pager) (rowSize : ℕ) (old : PageTree d) (lo : WithBot Int64) (sep : Int64)
    (hi : WithTop Int64) {i : ℕ} (b : PageTree (d + i)) (lo' : WithBot Int64)
    (hi' : WithTop Int64) (next : ℕ) : Prop where
  good : GoodTree s₀ rowSize b lo' hi'
  stored : Stored s₀.page rowSize b next
  pick : (b.level d i).pick sep = old
  bounds : (b.level d i).bounds sep lo' hi' = (lo, hi)

/-- So the whole tree is. -/
theorem JustSplit.onWay (h : JustSplit s₀ s rowSize t p old left right lo sep hi) :
    OnWay s₀ rowSize old lo sep hi t ⊥ ⊤ 0 := by
  obtain ⟨hpick, hbounds⟩ :=
    Kids.eq_of_mem_ranges h.tree.good.ordered.level h.place.range h.inside.1.le h.inside.2
  exact ⟨h.tree.good, h.tree.stored, hpick, hbounds⟩

/-- The child of a node on the way. -/
abbrev wayChild (sep : Int64) (i : ℕ) (n : PageTree (d + (i + 1))) : PageTree (d + i) :=
  (Tree.kids (h := d + i) n).pick sep

theorem OnWay.child {i : ℕ} {n : PageTree (d + (i + 1))} {lo' : WithBot Int64}
    {hi' : WithTop Int64} {next : ℕ} (h : OnWay s₀ rowSize old lo sep hi n lo' hi' next) :
    ∃ e, OnWay s₀ rowSize old lo sep hi (wayChild sep i n)
        ((Tree.kids (h := d + i) n).bounds sep lo' hi').1
        ((Tree.kids (h := d + i) n).bounds sep lo' hi').2 e ∧
      ChildOf (s₀.page (wayChild sep i n).page) n.page := by
  have hmem := Kids.pick_mem_children sep (Tree.kids (h := d + i) n)
  obtain ⟨e, hst, hchild⟩ := h.stored.2.exists_of_mem hmem
  have hord := h.good.ordered
  refine ⟨e, ⟨h.good.child hmem (Kids.Ordered.pick_bounds hord sep), hst, ?_, ?_⟩, hchild⟩
  · rw [← Tree.pick_level_succ hord]
    exact h.pick
  · rw [← Tree.bounds_level_succ hord]
    exact h.bounds

/-- What the halves make of a subtree on the way: it starts where the subtree did, keeps to its
range, and lies on its pages and on new ones. -/
structure Rises (s₀ s : Pager) (rowSize : ℕ) (left : PageTree d) (sep : Int64) (right : PageTree d)
    {i : ℕ} (b : PageTree (d + i)) (lo' : WithBot Int64) (hi' : WithTop Int64) : Prop where
  page : (risen s left sep right i b).1.kids.head.page = b.page
  entry : (risen s left sep right i b).1.kids.head.entry = b.entry
  ordered : (risen s left sep right i b).1.kids.Ordered (fun lo hi c => c.Ordered lo hi) lo' hi'
  sized : ∀ c ∈ (risen s left sep right i b).1.kids.children,
    c.Sized (leafNodeMaxCells rowSize) internalNodeMaxKeys
  numPages : s₀.numPages ≤ (risen s left sep right i b).2
  labels : Relabels b.labels ((risen s left sep right i b).1.kids.children.map Tree.labels).sum
    s₀.numPages (risen s left sep right i b).2

theorem JustSplit.rises (h : JustSplit s₀ s rowSize t p old left right lo sep hi) {i : ℕ}
    {b : PageTree (d + i)} {lo' : WithBot Int64} {hi' : WithTop Int64} {next : ℕ}
    (hb : OnWay s₀ rowSize old lo sep hi b lo' hi' next) :
    Rises s₀ s rowSize left sep right b lo' hi' := by
  have hord := hb.good.ordered
  have hnew : (Ins.split left sep right).kids.Ordered
      (fun lo hi (c : PageTree d) => c.Ordered lo hi) lo hi :=
    ⟨h.inside.1, h.inside.2, h.ordered.1, h.ordered.2⟩
  have hpage : (Ins.split left sep right).kids.head.page = ((b.level d i).pick sep).page :=
    hb.pick.symm ▸ h.page
  have hentry : (Ins.split left sep right).kids.head.entry = ((b.level d i).pick sep).entry :=
    hb.pick.symm ▸ h.entry
  have hhalves : ((Ins.split left sep right).kids.children.map Tree.labels).sum =
      left.labels + right.labels := List.sum_pair
  have hlabels : Relabels ((b.level d i).pick sep).labels
      ((Ins.split left sep right).kids.children.map Tree.labels).sum s₀.numPages s.numPages :=
    hhalves.symm ▸ hb.pick.symm ▸ h.labels
  obtain ⟨hnum, hrelabels⟩ : s₀.numPages ≤ (risen s left sep right i b).2 ∧ _ :=
    labels_passUp h.numPages hlabels hord hb.good.nodup hb.good.pages
  refine ⟨(head_passUp hpage hentry hord).1, (head_passUp hpage hentry hord).2,
    ordered_passUp hord (hb.bounds.symm ▸ hnew), sized_passUp (by decide) ?_ hb.good.sized, hnum,
    hrelabels⟩
  intro c hc
  rcases List.mem_cons.mp hc with rfl | hc
  · exact h.sized.1
  · rw [List.mem_singleton.mp hc]
    exact h.sized.2

/-- What they make of the children of a node on the way. -/
theorem JustSplit.rises_kids (h : JustSplit s₀ s rowSize t p old left right lo sep hi) {i : ℕ}
    {n : PageTree (d + (i + 1))} {lo' : WithBot Int64} {hi' : WithTop Int64} {next : ℕ}
    (hn : OnWay s₀ rowSize old lo sep hi n lo' hi' next) :
    (risenKids s left sep right i n).1.Ordered (fun lo hi c => c.Ordered lo hi) lo' hi' ∧
      s₀.numPages ≤ (risenKids s left sep right i n).2 ∧
      Relabels n.labels
        ({n.page} + ((risenKids s left sep right i n).1.children.map Tree.labels).sum)
        s₀.numPages (risenKids s left sep right i n).2 := by
  obtain ⟨e, hway, -⟩ := hn.child
  have hr := h.rises hway
  exact ⟨Kids.Ordered.place_bounds hn.good.ordered hr.ordered, hr.numPages,
    hr.labels.place hn.good.nodup hn.good.pages hr.numPages⟩

/-! ## The run -/

/-- The split has gone up to the root of the subtree `b`, below `parent`. -/
structure Risen (s₀ s : Pager) (rowSize from_ : ℕ) (left : PageTree d) (sep : Int64)
    (right : PageTree d) {i : ℕ} (b : PageTree (d + i)) (parent next fuel : ℕ) (s' : Pager) :
    Prop where
  enough : walkFuel ≤ fuel + i
  run : insertParent walkFuel s from_ sep left.page right.page =
    resume fuel s' parent (risen s left sep right i b).1
  numPages : s'.numPages = (risen s left sep right i b).2
  sound : s'.Sound
  kept : ∀ q < s₀.numPages, q ∉ b.labels → s'.page q = s₀.page q
  hangs : Hangs s'.page rowSize parent (risen s left sep right i b).1.kids next

/-- At a node the way up has come to: its page is the old one, what came of its child hangs under
it, and there is fuel left. -/
theorem Risen.at_node {s₁ : Pager} {from_ i e fuel next : ℕ} {n : PageTree (d + (i + 1))}
    {lo' : WithBot Int64} {hi' : WithTop Int64}
    (hr : Risen s₀ s rowSize from_ left sep right (wayChild sep i n) n.page e fuel s₁)
    (hn : OnWay s₀ rowSize old lo sep hi n lo' hi' next)
    (hchild : Stored s₀.page rowSize (wayChild sep i n) e)
    (hentry : (risen s left sep right i (wayChild sep i n)).1.kids.head.entry =
      (wayChild sep i n).entry) (hbounded : s₀.numPages ≤ tablesMaxPages) :
    s₁.page n.page = s₀.page n.page ∧
      Hangs s₁.page rowSize n.page (risenKids s left sep right i n).1 next ∧
      (∀ q < s₀.numPages, q ∉ n.labels → s₁.page q = s₀.page q) ∧ ∃ f, fuel = f + 1 := by
  obtain ⟨hout, hothers⟩ := hn.good.disjoint sep
  have hheight : d + (i + 1) < s₀.numPages := Tree.height_lt hn.good.nodup hn.good.pages
  have hwalk : walkFuel = tablesMaxPages + 1 := rfl
  have hfuel := hr.enough
  refine ⟨hr.kept _ hn.good.page_lt hout, ?_, fun q hq hnot => hr.kept q hq fun hmem => ?_,
    fuel - 1, by omega⟩
  · exact hangs_place hn.stored.2
      (fun c hc q hq => hr.kept q (hothers c hc q hq).2 (hothers c hc q hq).1) hentry
      fun e' he' => Stored.next_unique hchild he' ▸ hr.hangs
  · exact hnot (Multiset.mem_of_le (Tree.labels_le_of_mem (Kids.pick_mem_children sep _)) hmem)

/-- **The way up below the root.** -/
theorem JustSplit.exists_risen (h : JustSplit s₀ s rowSize t p old left right lo sep hi) :
    {i : ℕ} → {b : PageTree (d + i)} → {lo' : WithBot Int64} → {hi' : WithTop Int64} →
    {next parent : ℕ} → OnWay s₀ rowSize old lo sep hi b lo' hi' next →
    ChildOf (s₀.page b.page) parent → parent < s₀.numPages →
    (risen s left sep right i b).2 ≤ tablesMaxPages →
    ∃ fuel s', Risen s₀ s rowSize p.page left sep right b parent next fuel s'
  | 0, b, _, _, next, parent, hb, hchild, _, _ => by
    -- the node that was cut, which names its parent
    obtain rfl : b = old := hb.pick
    obtain ⟨-, e, -, hchild'⟩ := h.place.exists_stored h.tree
    obtain rfl : p.page = parent := hchild'.parent.symm.trans hchild.parent
    exact ⟨walkFuel, s, le_rfl, rfl, rfl, h.sound, h.kept, h.hangs next hb.stored⟩
  | i + 1, n, lo', hi', next, parent, hn, hchild, hparent, hroom => by
    obtain ⟨e, hway, hchild'⟩ := hn.child
    have hr := h.rises hway
    obtain ⟨hord, hnum, hlab⟩ := h.rises_kids hn
    have hclose : risen s left sep right (i + 1) n = closeNode internalNodeMaxKeys n.page
      (risen s left sep right i (wayChild sep i n)).2 ((Tree.kids (h := d + i) n).place sep
        (risen s left sep right i (wayChild sep i n)).1.kids) := rfl
    rw [hclose] at hroom
    obtain ⟨fuel, s₁, hrisen⟩ := h.exists_risen hway hchild' hn.good.page_lt
      ((labels_closeNode ..).1.trans hroom)
    have hnum₁ := hrisen.numPages
    obtain ⟨hpage, hkids, hkept, fuel, rfl⟩ :=
      hrisen.at_node hn hway.stored hr.entry ((hnum₁ ▸ hnum).trans hrisen.sound.bounded)
    rw [← hnum₁] at hroom
    obtain ⟨s₂, hrun, -, hnum₂, hev, hhangs, -⟩ := resume_node hrisen.sound (hpage ▸ hn.stored.1)
      hr.page hkids hord.pairwise_seps hn.good.sized.2.1 hlab.nodup
      (fun q hq => hnum₁ ▸ (hlab.mem q hq).1) (hpage ▸ hchild) (hparent.trans_le (hnum₁ ▸ hnum))
      hroom
    rw [hnum₁, ← hclose] at hrun hnum₂ hhangs
    have hfuel := hrisen.enough
    refine ⟨fuel, s₂, by omega, hrisen.run.trans hrun, hnum₂, hev.sound, fun q hq hnot => ?_,
      hhangs⟩
    rw [← hkept q hq hnot]
    refine hev.page q ?_
    rintro (rfl | hmem | hge)
    · exact hnot (Tree.page_mem_labels n)
    · obtain ⟨c, hc, rfl⟩ := List.mem_map.mp hmem
      rcases (hlab.mem c.page (Multiset.mem_add.mpr (Or.inr (Multiset.mem_of_le
        (Tree.labels_le_sum hc) (Tree.page_mem_labels c))))).2 with hold | hge
      · exact hnot hold
      · exact absurd hq (not_lt.mpr hge)
    · exact absurd hq (not_lt.mpr (hnum.trans (hnum₁ ▸ hge)))

/-- **The whole way up**, when there are pages for it. -/
theorem JustSplit.exists_represents (h : JustSplit s₀ s rowSize t p old left right lo sep hi)
    (hroom : (risenRoot s left sep right j t).2 ≤ tablesMaxPages) :
    ∃ s', insertParent walkFuel s p.page sep left.page right.page = .ok (.commandSuccess, s') ∧
      Represents s' rowSize (risenRoot s left sep right j t).1 := by
  have hway := h.onWay
  obtain ⟨e, hway', hchild'⟩ := hway.child
  have hr := h.rises hway'
  obtain ⟨hord, hnum, hlab⟩ := h.rises_kids hway
  have hlt : t.page < s₀.numPages := hway.good.page_lt
  have hclose : risenRoot s left sep right j t = closeRoot internalNodeMaxKeys t.page
    (risen s left sep right j (wayChild sep j t)).2 ((Tree.kids (h := d + j) t).place sep
      (risen s left sep right j (wayChild sep j t)).1.kids) := rfl
  rw [hclose] at hroom
  obtain ⟨fuel, s₁, hrisen⟩ := h.exists_risen hway' hchild' hlt
    ((labels_closeRoot ..).1.trans hroom)
  have hnum₁ := hrisen.numPages
  obtain ⟨hpage, hkids, -, fuel, rfl⟩ :=
    hrisen.at_node hway hway'.stored hr.entry ((hnum₁ ▸ hnum).trans hrisen.sound.bounded)
  have hroot : isRoot (s₀.page t.page) = 1 := h.tree.root
  rw [← hnum₁] at hroom
  obtain ⟨s', hrun, hnum', -, hstored, hroot'⟩ := resume_root hrisen.sound (hpage ▸ hway.stored.1)
    hr.page hkids hord.pairwise_seps hway.good.sized.2.1 hlab.nodup
    (fun q hq => hnum₁ ▸ (hlab.mem q hq).1) (hpage ▸ hroot) hroom
  rw [hnum₁, ← hclose] at hnum' hstored
  obtain ⟨hle, hlabels⟩ := labels_closeRoot internalNodeMaxKeys t.page
    (risenKids s left sep right j t).2 (risenKids s left sep right j t).1
  have hnew := hlab.add hnum hle
  rw [← hlabels] at hnew
  obtain ⟨g1, g2⟩ := length_seps_passUpKids internalNodeMaxKeys sep (.split left sep right)
    s.numPages hway.good.sized
  refine ⟨s', hrisen.run.trans hrun, hstored, ?_, ⟨ordered_closeRoot _ _ hord,
    sized_closeRoot (by decide) _ _ g1 g2 (sized_place sep hway.good.sized.2.2 hr.sized),
    hnew.nodup, fun q hq => hnum' ▸ (hnew.mem q hq).1⟩, fun hq => ?_⟩
  · rw [hclose, page_closeRoot]
    exact hroot'
  · rcases (hnew.mem 0 hq).2 with hold | hge
    · exact h.tree.zero hold
    · exact absurd (Nat.zero_lt_of_lt hlt) (not_lt.mpr hge)

/-- **A split of an internal node keeps the sequence of the children.**  It ends, whatever ancestors
are full, and no index leaves its arrays.  When there are pages for the new nodes, the pages hold a
tree afterwards: every node has a separator and at most `internalNodeMaxKeys`, and the leaves are at
one depth.  Its level of the child reads as before, but that the separator and the right half follow
the child. -/
theorem splitInternalNode_sequence (h : JustSplit s₀ s rowSize t p old left right lo sep hi) :
    (∃ r s', splitInternalNode walkFuel s p.page sep left.page right.page = .ok (r, s')) ∧
      splitInternalNodeChecked walkFuel s p.page sep left.page right.page =
        some (splitInternalNode walkFuel s p.page sep left.page right.page) ∧
      ((risenRoot s left sep right j t).2 ≤ tablesMaxPages → ∃ s' t',
        splitInternalNode walkFuel s p.page sep left.page right.page = .ok (.commandSuccess, s') ∧
        Represents s' rowSize t' ∧ t'.2.page = t.page ∧
        ∃ xs ys, (t.levelPages d).sequence = xs ++ .inl left.page :: ys ∧
          (t'.2.levelPages d).sequence =
            xs ++ .inl left.page :: .inr sep :: .inl right.page :: ys) := by
  obtain ⟨hfull, ns, hup, hright, hmax⟩ := h.exists_ancestors
  obtain ⟨hleft, hnd⟩ := List.nodup_cons.mp hup.nodup
  have hend : ∃ r s', insertParent walkFuel s p.page sep left.page right.page = .ok (r, s') ∧ _ :=
    touches_insertParent ns hup.up hnd hup.lt hleft hright (hup.length_lt h.sound)
  obtain ⟨r, s', hrun, -, hchecked⟩ := hend
  have hchecked' := hchecked hmax
  rw [insertParentChecked_of_ge hfull.ge, insertParent_of_ge hfull.ge] at hchecked'
  rw [insertParent_of_ge hfull.ge] at hrun
  refine ⟨⟨r, s', hrun⟩, hchecked', fun hroom => ?_⟩
  obtain ⟨s₂, hrun₂, htree⟩ := h.exists_represents hroom
  rw [insertParent_of_ge hfull.ge] at hrun₂
  obtain ⟨xs, ys, heq, hplace⟩ := Kids.exists_sequence_place sep (t.levelPages d)
  have hpick : (t.levelPages d).pick sep = left.page := by
    rw [Tree.levelPages_eq_map (j := j + 1), Kids.pick_map, h.onWay.pick, h.page]
  refine ⟨s₂, _, hrun₂, htree, page_closeRoot .., xs, ys, hpick ▸ heq, ?_⟩
  have hone : ∀ c : PageTree d, c.levelPages d = .one c.page := fun c =>
    Tree.levelPages_of_le le_rfl
  rw [levelPages_passUpRoot h.tree.good.ordered, hplace, Ins.kids, Kids.bind_cons, Kids.bind_one,
    hone, hone]
  simp [Kids.append, Kids.sequence]

/-- The last leaf, under a root that is full. -/
theorem underFull_ascending {m : ℕ} (hm : m + 1 = internalNodeMaxKeys)
    (ht : Represents s rowSize (ascending m)) :
    ∃ lo hi, UnderFull (d := 0) (j := 0) (ascending m).2 (ascending m).2
        (.leaf (rowPage (m + 2)) [notesCell (rowKey (m + 2)), notesCell (rowKey (m + 3))]) lo hi ∧
      lo ≤ (rowKey (m + 4) : WithBot Int64) ∧ (rowKey (m + 4) : WithTop Int64) < hi := by
  have hmax := internalNodeMaxKeys_eq
  have hpick := pick_ladder (i := 1) (m := m + 1) (k := m + 4) (by omega) (by omega)
  have hlast : 1 + (m + 1) = m + 2 := by omega
  rw [hlast] at hpick
  have hord : (ladder 1 (m + 1)).Ordered (fun lo hi c => c.Ordered lo hi) ⊥ ⊤ := ht.good.ordered
  obtain ⟨-, hlo, hhi, -, -⟩ := hord.bounds_around bot_le (WithTop.coe_lt_top (rowKey (m + 4)))
  have hmem := Kids.bounds_mem_ranges (rowKey (m + 4)) ⊥ ⊤ (ladder 1 (m + 1))
  have hchild := Kids.pick_mem_children (rowKey (m + 4)) (ladder 1 (m + 1))
  rw [hpick] at hmem hchild
  refine ⟨_, _, ⟨List.mem_singleton_self _, ?_, hchild, ?_⟩, hlo, hhi⟩
  · exact (length_seps_ladder 1 (m + 1)).trans hm
  · show _ ∈ ((ladder 1 (m + 1)).bind Kids.one).ranges ⊥ ⊤
    rw [Kids.bind_one_right]
    exact hmem

/-- The row `343` splits the last leaf and the root above it. -/
theorem splitInternalNode_sequence_notes : ∃ m s s' t' sep right xs ys,
    m + 1 = internalNodeMaxKeys ∧ OneTable s notesName notes validNotes (ascending m) ∧
      splitLeafNode s (openTable s 0 notesName) (rowPage (m + 2)) (rowKey (m + 4))
          (insertedRow (notesRow (rowKey (m + 4)))) (schemaOf notes validNotes).rowSize =
        .ok (.commandSuccess, s') ∧
      Represents s' (schemaOf notes validNotes).rowSize t' ∧
      ((ascending m).2.levelPages 0).sequence = xs ++ .inl (rowPage (m + 2)) :: ys ∧
      (t'.2.levelPages 0).sequence =
        xs ++ .inl (rowPage (m + 2)) :: .inr sep :: .inl right :: ys := by
  have hmax := internalNodeMaxKeys_eq
  obtain ⟨m, hm⟩ : ∃ m, m + 1 = internalNodeMaxKeys := ⟨internalNodeMaxKeys - 1, by omega⟩
  obtain ⟨s, -, h, hnum⟩ := exists_ascending hm.le
  have hpages : tablesMaxPages = 20000 := rfl
  have hk : m + 4 < 1000 := by omega
  have hkey := key_ne_ascending hk
  rw [leafFor_ascending hk] at hkey
  have hmatches := matches_notesRow (rowKey (m + 4))
  have ht : Represents s (rowWidth (schemaOf notes validNotes).types)
      ⟨0 + (0 + 1), (ascending m).2⟩ := h.holds.represents
  obtain ⟨lo, hi, hplace, hlo, hhi⟩ := underFull_ascending hm ht
  obtain ⟨s₁, left, right, sep, hleaf, hnum₁, hsplit⟩ := splitLeafStep_justSplit h.holds.sound
    h.holds.reads (schemaOf notes validNotes).one_le_maxCells ht hplace hlo hhi
    leafNodeMaxCells_notes.symm hkey (by rw [length_rowBytes, hmatches.columnTypes]) (by omega)
  obtain ⟨-, -, hrun⟩ := splitInternalNode_sequence hsplit
  have hroom : (risenRoot s₁ left sep right 0 (ascending m).2).2 ≤ tablesMaxPages :=
    (next_passUpRoot_le _).trans (by omega)
  obtain ⟨s', t', hok, ht', -, xs, ys, hold, hnew⟩ := hrun hroom
  rw [hsplit.page] at hold hnew
  exact ⟨m, s, s', t', sep, right.page, xs, ys, hm, h, (splitLeafNode_of_call hleaf).trans hok,
    ht', hold, hnew⟩

end MiniDB
