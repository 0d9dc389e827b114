import MiniDB.Pages.LeafEdit
import MiniDB.Storage.InsertRoot

/-!
# Walking along the leaves

`UPDATE` and `DELETE` go along the leaf links and rewrite the cells of one leaf after the other.

* `EditedLeaf`, `EditedLeaves`: a leaf page whose cells were rewritten by a function, and a tree all
  of whose leaves were.
* `Represents.edited`: the pages hold the rewritten tree.
* `walkLeaves`, `LeafOp`: the loop along the links, and what it asks of its body.
* `walkLeaves_eq`: the loop rewrites every leaf.
* `walkLeaves_reads`: a body that only reads.
-/

namespace MiniDB

open BPlusTree Pager

variable {rowSize : ℕ} {φ : List Cell → List Cell}

/-- The page `p'` is the leaf page `p` with its cells rewritten. -/
structure EditedLeaf (rowSize : ℕ) (φ : List Cell → List Cell) (p p' : Page) : Prop where
  cells : leafCells rowSize p' = φ (leafCells rowSize p)
  frame : SameFrame p p'

theorem LeafPage.edited {p p' : Page} {cells : List Cell} {next : ℕ}
    (h : LeafPage rowSize p cells next) (he : EditedLeaf rowSize φ p p') :
    LeafPage rowSize p' (φ cells) next :=
  ⟨he.frame.type.trans h.type, by rw [he.cells, h.cells], he.frame.next.trans h.next⟩

/-! ## Trees -/

section Tree

variable {m m' : ℕ → Page}

/-- All leaves were rewritten and every other page of the tree is as it was. -/
theorem Stored.edited : {h : ℕ} → {t : PageTree h} → {next : ℕ} → Stored m rowSize t next →
    t.labels.Nodup → (∀ l ∈ t.leaves, EditedLeaf rowSize φ (m l.page) (m' l.page)) →
    (∀ q ∈ t.labels, q ∉ t.leaves.map Leaf.page → m' q = m q) →
    Stored m' rowSize (t.mapCells φ) next
  | 0, l, _, hst, _, hleaf, _ => LeafPage.edited hst (hleaf _ (List.mem_singleton_self _))
  | h + 1, n, next, hst, hnd, hleaf, hrest => by
    have hmem : ∀ c ∈ n.kids.children, ∀ l ∈ c.leaves, l ∈ n.leaves := fun c hc l hl =>
      List.mem_flatMap.mpr ⟨c, hc, hl⟩
    have hsum : (n.kids.children.map Tree.labels).sum.Nodup :=
      Multiset.nodup_of_le (le_add_self.trans (Tree.labels_succ n).ge) hnd
    have hnpage : m' n.page = m n.page := by
      refine hrest _ (Tree.page_mem_labels n) fun hmem' => ?_
      obtain ⟨l, hl, hpage⟩ := List.mem_map.mp hmem'
      obtain ⟨c, hc, hlc⟩ := List.mem_flatMap.mp hl
      exact Tree.page_notMem_child hnd hc (hpage ▸ Tree.leaf_page_mem_labels hlc)
    refine ⟨?_, Kids.Linked.map (fun c => Tree.entry_mapCells c) (fun c hc e hce => ?_) hst.2⟩
    · show InternalPage (m' n.page) (n.kids.map (Tree.mapCells φ)).seps
        ((n.kids.map (Tree.mapCells φ)).children.map Tree.page)
      have hpages : (Tree.page ∘ Tree.mapCells φ : PageTree h → ℕ) = Tree.page :=
        funext Tree.page_mapCells
      rw [hnpage, Kids.seps_map, Kids.children_map, List.map_map, hpages]
      exact hst.1
    · have hle := Tree.labels_le_of_mem hc
      -- a page of this child that is none of its leaves is no leaf of another child either
      have hcrest : ∀ q ∈ c.labels, q ∉ c.leaves.map Leaf.page → m' q = m q := fun q hq hnot => by
        refine hrest q (Multiset.mem_of_le hle hq) fun hmem' => ?_
        obtain ⟨l, hl, rfl⟩ := List.mem_map.mp hmem'
        obtain ⟨d, hd, hld⟩ := List.mem_flatMap.mp hl
        have hdc : d = c := by
          by_contra hne
          obtain ⟨l₁, l₂, heq⟩ := List.append_of_mem hc
          rw [heq, List.map_append, List.map_cons, List.sum_append, List.sum_cons,
            ← Multiset.add_assoc, Multiset.add_comm _ c.labels, Multiset.add_assoc,
            Multiset.nodup_add, ← List.sum_append, ← List.map_append] at hsum
          rw [heq] at hd
          have hd' : d ∈ l₁ ++ l₂ := by
            rcases List.mem_append.mp hd with hd | hd
            · exact List.mem_append_left _ hd
            · exact List.mem_append_right _ ((List.mem_cons.mp hd).resolve_left hne)
          exact Multiset.disjoint_left.mp hsum.2.2 hq
            (Multiset.mem_of_le (Tree.labels_le_sum hd') (Tree.leaf_page_mem_labels hld))
        exact hnot (List.mem_map_of_mem (hdc ▸ hld))
      refine ⟨hce.1.edited (Multiset.nodup_of_le hle hnd) (fun l hl => hleaf l (hmem c hc l hl))
        hcrest, ?_⟩
      rw [Tree.page_mapCells]
      by_cases hleafpage : c.page ∈ c.leaves.map Leaf.page
      · obtain ⟨l, hl, hpage⟩ := List.mem_map.mp hleafpage
        have hframe := (hleaf l (hmem c hc l hl)).frame
        rw [hpage] at hframe
        exact ⟨hframe.isRoot.trans hce.2.isRoot, hframe.parent.trans hce.2.parent⟩
      · rw [hcrest _ (Tree.page_mem_labels c) hleafpage]
        exact hce.2

/-- Different leaves are on different pages. -/
theorem nodup_leaf_pages : {h : ℕ} → {t : PageTree h} → t.labels.Nodup →
    (t.leaves.map Leaf.page).Nodup
  | 0, _, _ => List.nodup_singleton _
  | h + 1, n, hnd => by
    have hsum : (n.kids.children.map Tree.labels).sum.Nodup :=
      Multiset.nodup_of_le (le_add_self.trans (Tree.labels_succ n).ge) hnd
    rw [Tree.leaves_succ]
    generalize n.kids.children = cs at hsum
    induction cs with
    | nil => exact List.nodup_nil
    | cons c cs ih =>
      rw [List.map_cons, List.sum_cons, Multiset.nodup_add] at hsum
      rw [List.flatMap_cons, List.map_append]
      refine (nodup_leaf_pages hsum.1).append (ih hsum.2.1) fun q hq hq' => ?_
      obtain ⟨l, hl, rfl⟩ := List.mem_map.mp hq
      obtain ⟨l', hl', hpage⟩ := List.mem_map.mp hq'
      obtain ⟨d, hd, hld⟩ := List.mem_flatMap.mp hl'
      exact Multiset.disjoint_left.mp hsum.2.2 (Tree.leaf_page_mem_labels hl)
        (hpage ▸ Multiset.mem_of_le (Tree.labels_le_sum hd) (Tree.leaf_page_mem_labels hld))

end Tree

/-- Every leaf of the tree was rewritten, and no other page. -/
structure EditedLeaves (rowSize : ℕ) (φ : List Cell → List Cell) (s s' : Pager)
    (t : PageTreeAny) : Prop where
  leaf : ∀ l ∈ t.2.leaves, EditedLeaf rowSize φ (s.page l.page) (s'.page l.page)
  rest : ∀ q, q ∉ t.2.leaves.map Leaf.page → s'.page q = s.page q

theorem EditedLeaves.fetched {s s₁ s' : Pager} {t : PageTreeAny}
    (h : EditedLeaves rowSize φ s₁ s' t) (hf : Fetched s s₁) : EditedLeaves rowSize φ s s' t := by
  refine ⟨fun l hl => ?_, fun q hq => ?_⟩
  · rw [← hf.page]
    exact h.leaf l hl
  · rw [← hf.page]
    exact h.rest q hq

/-- **A tree all of whose leaves were rewritten.** -/
theorem Represents.edited {s s' : Pager} {t : PageTreeAny} (ht : Represents s rowSize t)
    (hedit : EditedLeaves rowSize φ s s' t) (hnum : s'.numPages = s.numPages)
    (hkeys : ∀ cells, ((φ cells).map Prod.fst).Sublist (cells.map Prod.fst)) :
    Represents s' rowSize ⟨t.1, t.2.mapCells φ⟩ where
  stored := ht.stored.edited ht.good.nodup hedit.leaf fun q _ => hedit.rest q
  root := by
    show isRoot (s'.page (t.2.mapCells φ).page) = 1
    rw [Tree.page_mapCells]
    by_cases hmem : t.2.page ∈ t.2.leaves.map Leaf.page
    · obtain ⟨l, hl, hpage⟩ := List.mem_map.mp hmem
      have hframe := (hedit.leaf l hl).frame
      rw [hpage] at hframe
      exact hframe.isRoot.trans ht.root
    · rw [hedit.rest _ hmem]
      exact ht.root
  good := by
    refine ⟨ht.good.ordered.mapCells hkeys, ht.good.sized.mapCells fun cells => ?_, ?_, ?_⟩
    · simpa using (hkeys cells).length_le
    · rw [Tree.labels_mapCells]
      exact ht.good.nodup
    · rw [Tree.labels_mapCells, hnum]
      exact ht.good.pages
  zero := by
    rw [Tree.labels_mapCells]
    exact ht.zero

/-! ## The loop -/

/-- The loop of `update_command` and `delete_command` along the leaf links, for a body that answers
whether it got through and whether it changed a row. -/
def walkLeaves (op : Pager → ℕ → Exec (Bool × Bool × Pager)) :
    ℕ → Pager → ℕ → Exec (CommandResult × Pager)
  | 0, _, _ => .error .endless
  | fuel + 1, s, leaf => do
    let (through, dirty, s) ← op s leaf
    if ! through then return (.failure, s)
    let s := if dirty then pagerMarkDirty s leaf else s
    let next := nextLeaf (s.page leaf)
    if next = 0 then return (.commandSuccess, s)
    match pagerGetPage s next with
    | none => return (.commandSuccess, s)
    | some s => walkLeaves op fuel s next

/-- The body rewrites the cells of a leaf by `φ`, unless one of them makes it fault: `Bad f c` says
that the cell `c` makes it fault with `f`. -/
structure LeafOp (op : Pager → ℕ → Exec (Bool × Bool × Pager)) (catalog : Page) (rowSize : ℕ)
    (φ : List Cell → List Cell) (Bad : Fault → Cell → Prop) : Prop where
  run : ∀ {s : Pager} {leaf next : ℕ} {cells : List Cell}, s.Sound → s.page 0 = catalog →
    LeafPage rowSize (s.page leaf) cells next → leaf < s.numPages → leaf ≠ 0 →
    (∃ f, (∃ c ∈ cells, Bad f c) ∧ op s leaf = .error f) ∨
      ((∀ f, ∀ c ∈ cells, ¬ Bad f c) ∧ ∃ dirty s₁ s', op s leaf = .ok (true, dirty, s₁) ∧
        s' = (if dirty then pagerMarkDirty s₁ leaf else s₁) ∧ s'.numPages = s.numPages ∧
        Evolves s s' {leaf} ∅ ∧ EditedLeaf rowSize φ (s.page leaf) (s'.page leaf))

variable {op : Pager → ℕ → Exec (Bool × Bool × Pager)} {catalog : Page}
  {Bad : Fault → Cell → Prop}

section Rounds

variable {s s₁ s' : Pager} {leaf next : ℕ} {dirty : Bool} {f : Fault} (fuel : ℕ)

/-- The body faults. -/
theorem walkLeaves_error (hrun : op s leaf = .error f) :
    walkLeaves op (fuel + 1) s leaf = .error f := by
  rw [walkLeaves, hrun]
  rfl

/-- The body does not get through. -/
theorem walkLeaves_stop (hrun : op s leaf = .ok (false, dirty, s₁)) :
    walkLeaves op (fuel + 1) s leaf = .ok (.failure, s₁) := by
  rw [walkLeaves, hrun]
  rfl

/-- The last leaf. -/
theorem walkLeaves_last (hrun : op s leaf = .ok (true, dirty, s₁))
    (hs' : s' = if dirty then pagerMarkDirty s₁ leaf else s₁)
    (hnext : nextLeaf (s'.page leaf) = 0) :
    walkLeaves op (fuel + 1) s leaf = .ok (.commandSuccess, s') := by
  simp only [walkLeaves, hrun, bind, Except.bind, Bool.not_true, Bool.false_eq_true, if_false,
    ← hs', if_pos hnext]
  rfl

/-- A leaf with another one behind it. -/
theorem walkLeaves_next {s₂ : Pager} (hrun : op s leaf = .ok (true, dirty, s₁))
    (hs' : s' = if dirty then pagerMarkDirty s₁ leaf else s₁)
    (hnext : nextLeaf (s'.page leaf) = next) (hne : next ≠ 0)
    (hget : pagerGetPage s' next = some s₂) :
    walkLeaves op (fuel + 1) s leaf = walkLeaves op fuel s₂ next := by
  simp only [walkLeaves, hrun, bind, Except.bind, Bool.not_true, Bool.false_eq_true, if_false,
    ← hs', hnext, if_neg hne, hget]

end Rounds

/-- **The loop rewrites every leaf**, unless a cell is bad. -/
theorem walkLeaves_eq (hop : LeafOp op catalog rowSize φ Bad) :
    {ls : List (Leaf Int64 (List UInt8))} → {l : Leaf Int64 (List UInt8)} → {s : Pager} →
    {fuel : ℕ} → s.Sound → s.page 0 = catalog → Chain s.page rowSize (l :: ls) 0 →
    ((l :: ls).map Leaf.page).Nodup →
    (∀ d ∈ l :: ls, d.page < s.numPages ∧ d.page ≠ 0) → ls.length < fuel →
    (∃ f, (∃ d ∈ l :: ls, ∃ c ∈ d.cells, Bad f c) ∧ walkLeaves op fuel s l.page = .error f) ∨
      ((∀ f, ∀ d ∈ l :: ls, ∀ c ∈ d.cells, ¬ Bad f c) ∧ ∃ s',
        walkLeaves op fuel s l.page = .ok (.commandSuccess, s') ∧ s'.numPages = s.numPages ∧
        Evolves s s' {q | q ∈ (l :: ls).map Leaf.page} ∅ ∧
        ∀ d ∈ l :: ls, EditedLeaf rowSize φ (s.page d.page) (s'.page d.page)) := by
  intro ls
  induction ls with
  | nil =>
    intro l s fuel hs hcat hchain _ hpages hfuel
    obtain ⟨fuel, rfl⟩ : ∃ f, fuel = f + 1 := ⟨fuel - 1, by omega⟩
    obtain ⟨hlt, hne⟩ := hpages l List.mem_cons_self
    rcases hop.run hs hcat hchain hlt hne with ⟨f, ⟨c, hc, hbad⟩, hrun⟩ |
      ⟨hgood, dirty, s₁, s', hrun, hs', hnum, hev, hedit⟩
    · exact Or.inl ⟨f, ⟨l, List.mem_cons_self, c, hc, hbad⟩, walkLeaves_error fuel hrun⟩
    · have hnext : nextLeaf (s'.page l.page) = 0 := hedit.frame.next.trans hchain.next
      exact Or.inr ⟨fun f d hd => List.mem_singleton.mp hd ▸ hgood f, s',
        walkLeaves_last fuel hrun hs' hnext, hnum,
        hev.mono (fun q hq => hq ▸ List.mem_cons_self) (fun q hq => hq),
        fun d hd => List.mem_singleton.mp hd ▸ hedit⟩
  | cons l' ls ih =>
    intro l s fuel hs hcat hchain hnd hpages hfuel
    obtain ⟨fuel, rfl⟩ : ∃ f, fuel = f + 1 := ⟨fuel - 1, by omega⟩
    obtain ⟨hlt, hne⟩ := hpages l List.mem_cons_self
    obtain ⟨hlt', hne'⟩ := hpages l' (List.mem_cons_of_mem _ List.mem_cons_self)
    obtain ⟨hlnot, hnd'⟩ := List.nodup_cons.mp hnd
    rcases hop.run hs hcat hchain.1 hlt hne with ⟨f, ⟨c, hc, hbad⟩, hrun⟩ |
      ⟨hgood, dirty, s₁, s', hrun, hs', hnum, hev, hedit⟩
    · exact Or.inl ⟨f, ⟨l, List.mem_cons_self, c, hc, hbad⟩, walkLeaves_error fuel hrun⟩
    · -- the other leaves are untouched, and so is the catalog
      have hnext : nextLeaf (s'.page l.page) = l'.page := hedit.frame.next.trans hchain.1.next
      obtain ⟨s₂, hget, hfetch⟩ := pagerGetPage_of_lt hev.sound (n := l'.page) (by omega)
      have hother : ∀ d ∈ l' :: ls, s₂.page d.page = s.page d.page := fun d hd => by
        rw [hfetch.page]
        exact hev.page _ fun heq => hlnot (heq ▸ List.mem_map_of_mem hd)
      rw [walkLeaves_next fuel hrun hs' hnext hne' hget]
      rcases ih hfetch.sound (by rw [hfetch.page, hev.page 0 (fun h => hne h.symm), hcat])
        (hchain.2.congr hother) hnd' (fun d hd => by
          obtain ⟨h1, h2⟩ := hpages d (List.mem_cons_of_mem _ hd)
          exact ⟨by rw [hfetch.numPages, hnum]; exact h1, h2⟩)
        (Nat.lt_of_succ_lt_succ hfuel) with ⟨f, ⟨d, hd, c, hc, hbad⟩, herr⟩ |
        ⟨hgood', s₃, hrun', hnum', hev', hedit'⟩
      · exact Or.inl ⟨f, ⟨d, List.mem_cons_of_mem _ hd, c, hc, hbad⟩, herr⟩
      · refine Or.inr ⟨fun f d hd => ?_, s₃, hrun', hnum'.trans (hfetch.numPages.trans hnum),
          ?_, fun d hd => ?_⟩
        · rcases List.mem_cons.mp hd with rfl | hd
          · exact hgood f
          · exact hgood' f d hd
        · exact ((hev.fetched hfetch).mono (fun q hq => hq ▸ List.mem_cons_self)
            (fun q hq => hq)).trans (hev'.mono (fun q hq => List.mem_cons_of_mem _ hq)
              fun q hq => hq)
        · rcases List.mem_cons.mp hd with rfl | hd
          · rw [hev'.page _ hlnot, hfetch.page]
            exact hedit
          · rw [← hother d hd]
            exact hedit' d hd

/-- The body only reads a leaf, and stops at the first cell with `Stops`. -/
structure LeafRead (op : Pager → ℕ → Exec (Bool × Bool × Pager)) (catalog : Page) (rowSize : ℕ)
    (Bad : Fault → Cell → Prop) (Stops : Cell → Prop) : Prop where
  run : ∀ {s : Pager} {leaf next : ℕ} {cells : List Cell}, s.page 0 = catalog →
    LeafPage rowSize (s.page leaf) cells next →
    (∃ f, (∃ c ∈ cells, Bad f c) ∧ op s leaf = .error f) ∨
      ((∃ c ∈ cells, Stops c) ∧ op s leaf = .ok (false, true, s)) ∨
      ((∀ c ∈ cells, ¬ Stops c) ∧ op s leaf = .ok (true, false, s))

/-- A walk that only reads changes nothing; it fails when there is a cell to stop at. -/
theorem walkLeaves_reads {Stops : Cell → Prop} (hop : LeafRead op catalog rowSize Bad Stops) :
    {ls : List (Leaf Int64 (List UInt8))} → {l : Leaf Int64 (List UInt8)} → {s : Pager} →
    {fuel : ℕ} → s.Sound → s.page 0 = catalog → Chain s.page rowSize (l :: ls) 0 →
    (∀ d ∈ l :: ls, d.page < s.numPages ∧ d.page ≠ 0) → ls.length < fuel →
    (∃ f, (∃ d ∈ l :: ls, ∃ c ∈ d.cells, Bad f c) ∧ walkLeaves op fuel s l.page = .error f) ∨
      ∃ s', Fetched s s' ∧
        ((∃ d ∈ l :: ls, ∃ c ∈ d.cells, Stops c) ∧
            walkLeaves op fuel s l.page = .ok (.failure, s') ∨
          (∀ d ∈ l :: ls, ∀ c ∈ d.cells, ¬ Stops c) ∧
            walkLeaves op fuel s l.page = .ok (.commandSuccess, s')) := by
  intro ls
  induction ls with
  | nil =>
    intro l s fuel hs hcat hchain hpages hfuel
    obtain ⟨fuel, rfl⟩ : ∃ f, fuel = f + 1 := ⟨fuel - 1, by omega⟩
    rcases hop.run hcat hchain with ⟨f, ⟨c, hc, hbad⟩, hrun⟩ | ⟨⟨c, hc, hstop⟩, hrun⟩ |
      ⟨hgo, hrun⟩
    · exact Or.inl ⟨f, ⟨l, List.mem_cons_self, c, hc, hbad⟩, walkLeaves_error fuel hrun⟩
    · exact Or.inr ⟨s, Fetched.refl hs,
        Or.inl ⟨⟨l, List.mem_cons_self, c, hc, hstop⟩, walkLeaves_stop fuel hrun⟩⟩
    · have hnext : nextLeaf (s.page l.page) = 0 := LeafPage.next hchain
      exact Or.inr ⟨s, Fetched.refl hs,
        Or.inr ⟨fun d hd => List.mem_singleton.mp hd ▸ hgo, walkLeaves_last fuel hrun rfl hnext⟩⟩
  | cons l' ls ih =>
    intro l s fuel hs hcat hchain hpages hfuel
    obtain ⟨fuel, rfl⟩ : ∃ f, fuel = f + 1 := ⟨fuel - 1, by omega⟩
    obtain ⟨hlt', hne'⟩ := hpages l' (List.mem_cons_of_mem _ List.mem_cons_self)
    rcases hop.run hcat hchain.1 with ⟨f, ⟨c, hc, hbad⟩, hrun⟩ | ⟨⟨c, hc, hstop⟩, hrun⟩ |
      ⟨hgo, hrun⟩
    · exact Or.inl ⟨f, ⟨l, List.mem_cons_self, c, hc, hbad⟩, walkLeaves_error fuel hrun⟩
    · exact Or.inr ⟨s, Fetched.refl hs,
        Or.inl ⟨⟨l, List.mem_cons_self, c, hc, hstop⟩, walkLeaves_stop fuel hrun⟩⟩
    · obtain ⟨s₂, hget, hfetch⟩ := pagerGetPage_of_lt hs hlt'
      rw [walkLeaves_next fuel hrun rfl hchain.1.next hne' hget]
      rcases ih hfetch.sound (by rw [hfetch.page, hcat])
        (hchain.2.congr fun d _ => by rw [hfetch.page]) (fun d hd => by
          rw [hfetch.numPages]
          exact hpages d (List.mem_cons_of_mem _ hd))
        (Nat.lt_of_succ_lt_succ hfuel) with ⟨f, ⟨d, hd, c, hc, hbad⟩, herr⟩ |
        ⟨s', hf', ⟨⟨d, hd, hstop⟩, hrun'⟩ | ⟨hgo', hrun'⟩⟩
      · exact Or.inl ⟨f, ⟨d, List.mem_cons_of_mem _ hd, c, hc, hbad⟩, herr⟩
      · exact Or.inr ⟨s', hfetch.trans hf', Or.inl ⟨⟨d, List.mem_cons_of_mem _ hd, hstop⟩, hrun'⟩⟩
      · refine Or.inr ⟨s', hfetch.trans hf', Or.inr ⟨fun d hd => ?_, hrun'⟩⟩
        rcases List.mem_cons.mp hd with rfl | hd
        · exact hgo
        · exact hgo' d hd

/-! ## From the root -/

/-- A tree in the pages is not higher than a descent is allowed to go. -/
theorem Represents.height_lt {s : Pager} {t : PageTreeAny} (ht : Represents s rowSize t)
    (hs : s.Sound) : t.1 < walkFuel := by
  have hheight : t.1 < s.numPages := Tree.height_lt ht.good.nodup ht.good.pages
  have hmax := hs.bounded
  have hwalk : walkFuel = tablesMaxPages + 1 := rfl
  omega

/-- The descent from the root to the leaf for a key. -/
theorem Represents.descent {s : Pager} {t : PageTreeAny} (ht : Represents s rowSize t)
    (hs : s.Sound) (key : Int64) :
    ∃ s', leafNodeForKey key walkFuel s t.2.page = .ok (some (t.2.leafFor key).page, s') ∧
      Fetched s s' :=
  leafNodeForKey_eq walkFuel hs ht.stored ht.good.ordered bot_le (WithTop.coe_lt_top key)
    ht.good.pages (ht.height_lt hs)

/-- The descent from the root to the first leaf. -/
theorem Represents.firstLeaf {s : Pager} {t : PageTreeAny} (ht : Represents s rowSize t)
    (hs : s.Sound) :
    ∃ s', MiniDB.firstLeaf walkFuel s t.2.page = .ok (some t.2.entry, s') ∧ Fetched s s' :=
  firstLeaf_eq walkFuel hs ht.stored ht.good.sized ht.good.pages (ht.height_lt hs)

/-- The leaves of a stored tree, in the form in which the loop takes them. -/
theorem Represents.leaf_cons {s : Pager} {t : PageTreeAny} (ht : Represents s rowSize t)
    (hs : s.Sound) :
    ∃ l ls, t.2.leaves = l :: ls ∧ l.page = t.2.entry ∧ Chain s.page rowSize (l :: ls) 0 ∧
      ((l :: ls).map Leaf.page).Nodup ∧ (∀ d ∈ l :: ls, d.page < s.numPages ∧ d.page ≠ 0) ∧
      ls.length < walkFuel := by
  obtain ⟨l, ls, hleaves⟩ := List.exists_cons_of_ne_nil (Tree.leaves_ne_nil t.2)
  have hentry := Tree.head?_leaves t.2
  rw [hleaves] at hentry
  have hnd := nodup_leaf_pages ht.good.nodup
  have hpages : ∀ d ∈ t.2.leaves, d.page < s.numPages ∧ d.page ≠ 0 := fun d hd =>
    ⟨ht.good.pages _ (Tree.leaf_page_mem_labels hd),
      fun h0 => ht.zero (h0 ▸ Tree.leaf_page_mem_labels hd)⟩
  have hlen : (t.2.leaves.map Leaf.page).length ≤ s.numPages := by
    have hsub : (t.2.leaves.map Leaf.page : Multiset ℕ) ≤ Multiset.range s.numPages :=
      (Multiset.le_iff_subset (Multiset.coe_nodup.mpr hnd)).mpr fun q hq => by
        obtain ⟨d, hd, rfl⟩ := List.mem_map.mp (Multiset.mem_coe.mp hq)
        exact Multiset.mem_range.mpr (hpages d hd).1
    simpa using Multiset.card_le_card hsub
  have hmax := hs.bounded
  have hwalk : walkFuel = tablesMaxPages + 1 := rfl
  rw [hleaves] at hnd hpages hlen
  simp only [List.length_map, List.length_cons] at hlen
  exact ⟨l, ls, hleaves, Option.some_inj.mp hentry, hleaves ▸ ht.stored.chain, hnd, hpages,
    by omega⟩

end MiniDB
