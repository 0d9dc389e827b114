import MiniDB.BPlusTree.Kids
import Mathlib.Data.Multiset.OrderedMonoid
import Mathlib.Algebra.BigOperators.Group.List.Basic
import Mathlib.Data.Multiset.Range
import Mathlib.Tactic.Abel

/-!
# B+ trees indexed by their height

A B+ tree over keys `K` and values `V`.  The type is indexed by the height, so that all leaves of a
tree are at the same depth by construction.  Every node carries a label, the number of the page it
lives on.

* `Leaf`, `Node`, `Tree`: the shapes.
* `Tree.leaves`, `Tree.contents`, `Tree.labels`: what a tree holds, from left to right.
* `Tree.Ordered`, `Tree.Sized`: the representation invariant.
* `Tree.leafFor`, `Tree.lookup`: search, and `lookup_eq_contents`: search sees the contents.
* `Tree.mapCells`: rewriting the cells of every leaf in place.
-/

namespace BPlusTree

variable {K V : Type}

/-- A leaf: the page it lives on and its cells. -/
structure Leaf (K V : Type) where
  page : ℕ
  cells : List (K × V)

/-- An inner node: the page it lives on and its children. -/
structure Node (K α : Type) where
  page : ℕ
  kids : Kids K α

/-- Trees of a given height; a leaf has height `0`. -/
def Tree (K V : Type) : ℕ → Type
  | 0 => Leaf K V
  | h + 1 => Node K (Tree K V h)

namespace Tree

/-- A leaf as a tree of height `0`. -/
def leaf (page : ℕ) (cells : List (K × V)) : Tree K V 0 := (⟨page, cells⟩ : Leaf K V)

/-- An inner node over children of height `h`. -/
def node {h : ℕ} (page : ℕ) (kids : Kids K (Tree K V h)) : Tree K V (h + 1) :=
  (⟨page, kids⟩ : Node K (Tree K V h))

/-- The label of the root of a tree. -/
def page : {h : ℕ} → Tree K V h → ℕ
  | 0, l => Leaf.page l
  | _ + 1, n => Node.page n

/-- The cells of a leaf. -/
def cells (l : Tree K V 0) : List (K × V) := Leaf.cells l

/-- The children of an inner node. -/
def kids {h : ℕ} (n : Tree K V (h + 1)) : Kids K (Tree K V h) := Node.kids n

@[simp] theorem page_leaf (p : ℕ) (cs : List (K × V)) : (leaf p cs).page = p := rfl

@[simp] theorem cells_leaf (p : ℕ) (cs : List (K × V)) : (leaf p cs).cells = cs := rfl

@[simp] theorem page_node {h : ℕ} (p : ℕ) (k : Kids K (Tree K V h)) : (node p k).page = p := rfl

@[simp] theorem kids_node {h : ℕ} (p : ℕ) (k : Kids K (Tree K V h)) : (node p k).kids = k := rfl

/-- The leaves, from left to right. -/
def leaves : {h : ℕ} → Tree K V h → List (Leaf K V)
  | 0, l => [⟨l.page, l.cells⟩]
  | _ + 1, n => n.kids.children.flatMap leaves

/-- The label of the leftmost leaf. -/
def entry : {h : ℕ} → Tree K V h → ℕ
  | 0, l => l.page
  | _ + 1, n => n.kids.head.entry

/-- The cells of all leaves, from left to right. -/
def contents {h : ℕ} (t : Tree K V h) : List (K × V) := t.leaves.flatMap Leaf.cells

/-- The labels of all nodes, with multiplicity. -/
def labels : {h : ℕ} → Tree K V h → Multiset ℕ
  | 0, l => {l.page}
  | _ + 1, n => {n.page} + (n.kids.children.map labels).sum

/-- The labels of all nodes but the root, with multiplicity. -/
def below : {h : ℕ} → Tree K V h → Multiset ℕ
  | 0, _ => 0
  | _ + 1, n => (n.kids.children.map labels).sum

theorem labels_eq : {h : ℕ} → (t : Tree K V h) → t.labels = {t.page} + t.below
  | 0, _ => (add_zero _).symm
  | _ + 1, _ => rfl

theorem leaves_zero (l : Tree K V 0) : l.leaves = [⟨l.page, l.cells⟩] := rfl

theorem leaves_succ {h : ℕ} (n : Tree K V (h + 1)) :
    n.leaves = n.kids.children.flatMap leaves := rfl

theorem contents_zero (l : Tree K V 0) : l.contents = l.cells := by
  rw [contents, leaves_zero, List.flatMap_singleton]

theorem contents_succ {h : ℕ} (n : Tree K V (h + 1)) :
    n.contents = n.kids.children.flatMap contents := by
  rw [contents, leaves_succ, List.flatMap_assoc]
  rfl

theorem labels_zero (l : Tree K V 0) : l.labels = {l.page} := rfl

theorem labels_succ {h : ℕ} (n : Tree K V (h + 1)) :
    n.labels = {n.page} + (n.kids.children.map labels).sum := rfl

theorem entry_succ {h : ℕ} (n : Tree K V (h + 1)) : n.entry = n.kids.head.entry := rfl

theorem page_mem_labels : {h : ℕ} → (t : Tree K V h) → t.page ∈ t.labels
  | 0, _ => Multiset.mem_singleton_self _
  | _ + 1, _ => Multiset.mem_add.mpr (Or.inl (Multiset.mem_singleton_self _))

/-- The labels of an inner node, with those of one child set apart. -/
theorem labels_perm {h : ℕ} {n : Tree K V (h + 1)} {c : Tree K V h} {cs : List (Tree K V h)}
    (hp : n.kids.children.Perm (c :: cs)) :
    n.labels = {n.page} + (c.labels + (cs.map labels).sum) := by
  rw [labels_succ, (hp.map labels).sum_eq, List.map_cons, List.sum_cons]

theorem labels_le_of_mem {h : ℕ} {n : Tree K V (h + 1)} {c : Tree K V h}
    (hc : c ∈ n.kids.children) : c.labels ≤ n.labels := by
  obtain ⟨l₁, l₂, heq⟩ := List.append_of_mem hc
  rw [labels_perm (heq ▸ List.perm_middle : n.kids.children.Perm (c :: (l₁ ++ l₂)))]
  exact le_add_left le_self_add

theorem below_le_labels {h : ℕ} (t : Tree K V h) : t.below ≤ t.labels := by
  rw [labels_eq]
  exact le_add_self

theorem page_notMem_below {h : ℕ} {t : Tree K V h} (hn : t.labels.Nodup) : t.page ∉ t.below := by
  rw [labels_eq, Multiset.singleton_add] at hn
  exact (Multiset.nodup_cons.mp hn).1

/-- The labels of one of some trees. -/
theorem labels_le_sum {h : ℕ} {cs : List (Tree K V h)} {c : Tree K V h} (hc : c ∈ cs) :
    c.labels ≤ (cs.map labels).sum := by
  obtain ⟨l₁, l₂, rfl⟩ := List.append_of_mem hc
  rw [List.map_append, List.map_cons, List.sum_append, List.sum_cons]
  exact le_add_left le_self_add

theorem mem_sum_labels {h : ℕ} {cs : List (Tree K V h)} {q : ℕ} :
    q ∈ (cs.map labels).sum ↔ ∃ c ∈ cs, q ∈ c.labels := by
  induction cs with
  | nil => simp
  | cons c cs ih =>
    rw [List.map_cons, List.sum_cons, Multiset.mem_add, ih, List.exists_mem_cons_iff]

/-- The labels of a child are below its parent. -/
theorem labels_le_below {h : ℕ} {n : Tree K V (h + 1)} {c : Tree K V h}
    (hc : c ∈ n.kids.children) : c.labels ≤ n.below := labels_le_sum hc

theorem page_notMem_child {h : ℕ} {n : Tree K V (h + 1)} {c : Tree K V h} (hn : n.labels.Nodup)
    (hc : c ∈ n.kids.children) : n.page ∉ c.labels := fun hq =>
  page_notMem_below hn (Multiset.mem_of_le (labels_le_below hc) hq)

/-- The labels of some trees: those of the roots, and those below. -/
theorem sum_labels {h : ℕ} (cs : List (Tree K V h)) :
    (cs.map labels).sum = (cs.map page : Multiset ℕ) + (cs.map below).sum := by
  induction cs with
  | nil => rfl
  | cons c cs ih =>
    rw [List.map_cons, List.sum_cons, ih, labels_eq, List.map_cons, List.map_cons, List.sum_cons,
      ← Multiset.cons_coe, ← Multiset.singleton_add]
    abel

/-- A label below one of some trees is not the label of a root of one, when no label is used
twice. -/
theorem page_ne_of_mem_below {h : ℕ} {cs : List (Tree K V h)} (hn : (cs.map labels).sum.Nodup)
    {c : Tree K V h} (hc : c ∈ cs) {q : ℕ} (hq : q ∈ c.below) : q ∉ cs.map page := by
  rw [sum_labels, Multiset.nodup_add] at hn
  intro hmem
  have hsum : q ∈ (cs.map below).sum := by
    obtain ⟨l₁, l₂, rfl⟩ := List.append_of_mem hc
    rw [List.map_append, List.map_cons, List.sum_append, List.sum_cons]
    exact Multiset.mem_add.mpr (Or.inr (Multiset.mem_add.mpr (Or.inl hq)))
  exact Multiset.disjoint_left.mp hn.2.2 (Multiset.mem_coe.mpr hmem) hsum

theorem nodup_map_page {h : ℕ} {cs : List (Tree K V h)} (hn : (cs.map labels).sum.Nodup) :
    (cs.map page).Nodup := by
  rw [sum_labels, Multiset.nodup_add] at hn
  exact Multiset.coe_nodup.mp hn.1

/-- The leaves of a tree are among its nodes. -/
theorem leaf_page_mem_labels : {h : ℕ} → {t : Tree K V h} → {l : Leaf K V} → l ∈ t.leaves →
    l.page ∈ t.labels
  | 0, t, l, hl => by
    obtain rfl : l = ⟨t.page, t.cells⟩ := List.mem_singleton.mp hl
    exact page_mem_labels t
  | h + 1, n, l, hl => by
    obtain ⟨c, hc, hlc⟩ := List.mem_flatMap.mp hl
    exact Multiset.mem_of_le (labels_le_of_mem hc) (leaf_page_mem_labels hlc)

/-- There are more nodes than levels below the root. -/
theorem height_lt_card_labels : {h : ℕ} → (t : Tree K V h) → h < t.labels.card
  | 0, l => by simp [labels_zero]
  | h + 1, n => by
    have hc := height_lt_card_labels n.kids.head
    rw [labels_perm (List.Perm.of_eq n.kids.children_eq_head_cons), Multiset.card_add,
      Multiset.card_add, Multiset.card_singleton]
    omega

/-- A tree on the first `N` labels is less than `N` high. -/
theorem height_lt {h N : ℕ} {t : Tree K V h} (hn : t.labels.Nodup) (hN : ∀ p ∈ t.labels, p < N) :
    h < N := by
  have hsub : t.labels ≤ Multiset.range N :=
    (Multiset.le_iff_subset hn).mpr fun p hp => Multiset.mem_range.mpr (hN p hp)
  have hcard := Multiset.card_le_card hsub
  rw [Multiset.card_range] at hcard
  exact lt_of_lt_of_le t.height_lt_card_labels hcard

theorem leaves_ne_nil : {h : ℕ} → (t : Tree K V h) → t.leaves ≠ []
  | 0, l => by simp [leaves_zero]
  | h + 1, n => by
    rw [leaves_succ, n.kids.children_eq_head_cons, List.flatMap_cons]
    exact List.append_ne_nil_of_left_ne_nil (leaves_ne_nil _) _

theorem head?_leaves : {h : ℕ} → (t : Tree K V h) → t.leaves.head?.map Leaf.page = some t.entry
  | 0, _ => rfl
  | h + 1, n => by
    rw [leaves_succ, n.kids.children_eq_head_cons, List.flatMap_cons,
      List.head?_append_of_ne_nil _ (leaves_ne_nil _)]
    exact head?_leaves n.kids.head

/-- The leftmost leaf is among the nodes. -/
theorem entry_mem_labels : {h : ℕ} → (t : Tree K V h) → t.entry ∈ t.labels
  | 0, t => page_mem_labels t
  | _ + 1, n => Multiset.mem_of_le (labels_le_of_mem n.kids.head_mem_children)
      (entry_mem_labels n.kids.head)

/-- Rewrite the cells of every leaf. -/
def mapCells (f : List (K × V) → List (K × V)) : {h : ℕ} → Tree K V h → Tree K V h
  | 0, l => leaf l.page (f l.cells)
  | _ + 1, n => node n.page (n.kids.map (mapCells f))

section mapCells

variable {f : List (K × V) → List (K × V)}

theorem mapCells_succ {h : ℕ} (n : Tree K V (h + 1)) :
    n.mapCells f = node n.page (n.kids.map (mapCells f)) := rfl

@[simp] theorem page_mapCells : {h : ℕ} → (t : Tree K V h) → (t.mapCells f).page = t.page
  | 0, _ => rfl
  | _ + 1, _ => rfl

@[simp] theorem entry_mapCells : {h : ℕ} → (t : Tree K V h) → (t.mapCells f).entry = t.entry
  | 0, _ => rfl
  | h + 1, n => by
    rw [mapCells_succ, entry_succ, kids_node, Kids.head_map, entry_mapCells, entry_succ]

@[simp] theorem labels_mapCells : {h : ℕ} → (t : Tree K V h) → (t.mapCells f).labels = t.labels
  | 0, _ => rfl
  | h + 1, n => by
    have ih : (labels ∘ mapCells f : Tree K V h → _) = labels := funext labels_mapCells
    rw [mapCells_succ, labels_succ, labels_succ, kids_node, Kids.children_map, List.map_map, ih,
      page_node]

theorem leaves_mapCells : {h : ℕ} → (t : Tree K V h) →
    (t.mapCells f).leaves = t.leaves.map fun l => ⟨l.page, f l.cells⟩
  | 0, _ => rfl
  | h + 1, n => by
    have ih : (fun c : Tree K V h => (c.mapCells f).leaves) =
        fun c => c.leaves.map fun l => ⟨l.page, f l.cells⟩ := funext leaves_mapCells
    rw [mapCells_succ, leaves_succ, leaves_succ, kids_node, Kids.children_map, List.flatMap_map,
      ih, List.map_flatMap]

/-- Filtering the cells of every leaf filters the contents. -/
theorem contents_mapCells_filter {h : ℕ} (q : K × V → Bool) (t : Tree K V h) :
    (t.mapCells (List.filter q)).contents = t.contents.filter q := by
  unfold contents
  rw [leaves_mapCells, List.flatMap_map, List.filter_flatMap]

/-- Mapping the cells of every leaf maps the contents. -/
theorem contents_mapCells_map {h : ℕ} (g : K × V → K × V) (t : Tree K V h) :
    (t.mapCells (List.map g)).contents = t.contents.map g := by
  unfold contents
  rw [leaves_mapCells, List.flatMap_map, List.map_flatMap]

end mapCells

section Order

variable [LinearOrder K]

/-! ## The representation invariant -/

/-- The keys of a list of cells ascend strictly. -/
def Sorted (cells : List (K × V)) : Prop := cells.Pairwise fun a b => a.1 < b.1

/-- Every key of a list of cells is in the range `[lo, hi)`. -/
def InRange (lo : WithBot K) (hi : WithTop K) (cells : List (K × V)) : Prop :=
  ∀ c ∈ cells, lo ≤ c.1 ∧ (c.1 : WithTop K) < hi

/-- The search tree order: the cells of a leaf ascend strictly inside its range, and the separators
of an inner node ascend strictly inside its range and cut it up among the children. -/
def Ordered (lo : WithBot K) (hi : WithTop K) : {h : ℕ} → Tree K V h → Prop
  | 0, l => Sorted l.cells ∧ InRange lo hi l.cells
  | _ + 1, n => n.kids.Ordered (fun lo hi c => Ordered lo hi c) lo hi

/-- The size bounds: a leaf holds at most `maxCells` cells, an inner node between one and `maxKeys`
separators. -/
def Sized (maxCells maxKeys : ℕ) : {h : ℕ} → Tree K V h → Prop
  | 0, l => l.cells.length ≤ maxCells
  | _ + 1, n => 1 ≤ n.kids.seps.length ∧ n.kids.seps.length ≤ maxKeys ∧
      ∀ c ∈ n.kids.children, Sized maxCells maxKeys c

variable {lo : WithBot K} {hi : WithTop K}

theorem Sorted.append {xs ys : List (K × V)} (hx : Sorted xs) (hy : Sorted ys)
    (h : ∀ a ∈ xs, ∀ b ∈ ys, a.1 < b.1) : Sorted (xs ++ ys) :=
  List.pairwise_append.mpr ⟨hx, hy, h⟩

/-- The contents of an ordered sequence of children with sorted contents are sorted and in range. -/
theorem sorted_flatMap {α : Type} {P : WithBot K → WithTop K → α → Prop} {f : α → List (K × V)}
    (hP : ∀ lo hi c, P lo hi c → Sorted (f c) ∧ InRange lo hi (f c)) {k : Kids K α}
    (h : k.Ordered P lo hi) :
    Sorted (k.children.flatMap f) ∧ InRange lo hi (k.children.flatMap f) := by
  induction k generalizing lo with
  | one c => simpa using hP lo hi c h
  | cons c s t ih =>
    obtain ⟨h1, h2, h3, h4⟩ := h
    obtain ⟨hs, hr⟩ := hP _ _ c h3
    obtain ⟨hs', hr'⟩ := ih h4
    rw [Kids.children_cons, List.flatMap_cons]
    refine ⟨hs.append hs' fun a ha b hb => ?_, fun a ha => ?_⟩
    · exact lt_of_lt_of_le (WithTop.coe_lt_coe.mp (hr a ha).2) (WithBot.coe_le_coe.mp (hr' b hb).1)
    · rcases List.mem_append.mp ha with ha | ha
      · exact ⟨(hr a ha).1, (hr a ha).2.trans h2⟩
      · exact ⟨h1.le.trans (hr' a ha).1, (hr' a ha).2⟩

theorem Ordered.sorted_contents : {h : ℕ} → {t : Tree K V h} → {lo : WithBot K} →
    {hi : WithTop K} → t.Ordered lo hi → Sorted t.contents ∧ InRange lo hi t.contents
  | 0, l, _, _, ht => by
    rw [contents_zero]
    exact ht
  | _ + 1, n, lo, hi, ht => by
    rw [contents_succ]
    exact sorted_flatMap (fun _ _ _ hc => hc.sorted_contents) ht

/-! ## Search -/

/-- The leaf whose range holds `key`. -/
def leafFor (key : K) : {h : ℕ} → Tree K V h → Leaf K V
  | 0, l => ⟨l.page, l.cells⟩
  | _ + 1, n => (n.kids.pick key).leafFor key

/-- Look a key up in the leaf whose range holds it. -/
def lookup {h : ℕ} (t : Tree K V h) (key : K) : Option V := (t.leafFor key).cells.lookup key

theorem leafFor_mem_leaves (key : K) : {h : ℕ} → (t : Tree K V h) → t.leafFor key ∈ t.leaves
  | 0, _ => List.mem_singleton_self _
  | _ + 1, n => List.mem_flatMap.mpr
      ⟨_, Kids.pick_mem_children key n.kids, leafFor_mem_leaves key (n.kids.pick key)⟩

theorem lookup_eq_none {xs : List (K × V)} {key : K} (h : ∀ a ∈ xs, a.1 ≠ key) :
    xs.lookup key = none := by
  induction xs with
  | nil => rfl
  | cons a xs ih =>
    have hne : (key == a.1) = false := beq_false_of_ne (h a List.mem_cons_self).symm
    rw [List.lookup_cons, hne]
    exact ih fun b hb => h b (List.mem_cons_of_mem _ hb)

/-- The values under a key are the one that is found, or none. -/
theorem Sorted.filter_key {cells : List (K × V)} (h : Sorted cells) (key : K) :
    (cells.filter fun a => key == a.1).map Prod.snd = (cells.lookup key).toList := by
  induction cells with
  | nil => rfl
  | cons a cells ih =>
    obtain ⟨hlt, hrest⟩ := List.pairwise_cons.mp h
    rw [List.filter_cons, List.lookup_cons]
    cases hkey : key == a.1 with
    | false => exact ih hrest
    | true =>
      have hnone : cells.lookup key = none := lookup_eq_none fun b hb heq =>
        absurd (hlt b hb) (by rw [heq, ← beq_iff_eq.mp hkey]; exact lt_irrefl _)
      have hempty := ih hrest
      rw [hnone] at hempty
      rw [if_pos rfl, List.map_cons, hempty]
      rfl

/-- Only the picked child can hold the key. -/
theorem lookup_flatMap {α : Type} {P : WithBot K → WithTop K → α → Prop} {f : α → List (K × V)}
    (hP : ∀ lo hi c, P lo hi c → Sorted (f c) ∧ InRange lo hi (f c)) {key : K} {k : Kids K α}
    (h : k.Ordered P lo hi) :
    (k.children.flatMap f).lookup key = (f (k.pick key)).lookup key := by
  induction k generalizing lo with
  | one c => simp [Kids.pick]
  | cons c s t ih =>
    obtain ⟨-, -, h3, h4⟩ := h
    rw [Kids.children_cons, List.flatMap_cons, Kids.pick, List.lookup_append]
    split
    · next hlt =>
      have hnone : (t.children.flatMap f).lookup key = none := lookup_eq_none fun a ha heq =>
        absurd (WithBot.coe_le_coe.mp ((sorted_flatMap hP h4).2 a ha).1) (not_le.mpr (heq ▸ hlt))
      rw [hnone, Option.or_none]
    · next hge =>
      have hnone : (f c).lookup key = none := lookup_eq_none fun a ha heq =>
        absurd (WithTop.coe_lt_coe.mp ((hP _ _ c h3).2 a ha).2) (heq ▸ hge)
      rw [hnone, Option.none_or, ih h4]

/-- Search finds what the contents hold. -/
theorem lookup_eq_contents {key : K} : {h : ℕ} → {t : Tree K V h} → {lo : WithBot K} →
    {hi : WithTop K} → t.Ordered lo hi → t.lookup key = t.contents.lookup key
  | 0, l, _, _, _ => by rw [contents_zero, lookup, leafFor]
  | _ + 1, n, lo, hi, ht => by
    obtain ⟨lo', hi', hpick⟩ := Kids.Ordered.exists_of_mem ht (Kids.pick_mem_children key n.kids)
    rw [contents_succ, lookup_flatMap (fun _ _ _ hc => hc.sorted_contents) ht,
      ← lookup_eq_contents hpick]
    rfl

/-- The leaf that holds `key` has a range around it. -/
theorem Ordered.leafFor {key : K} : {h : ℕ} → {t : Tree K V h} → {lo : WithBot K} →
    {hi : WithTop K} → t.Ordered lo hi → Sorted (t.leafFor key).cells
  | 0, _, _, _, ht => ht.1
  | h + 1, n, _, _, ht => by
    obtain ⟨lo', hi', hpick⟩ := Kids.Ordered.exists_of_mem ht (Kids.pick_mem_children key n.kids)
    exact hpick.leafFor

theorem Sized.leafFor {maxCells maxKeys : ℕ} {key : K} : {h : ℕ} → {t : Tree K V h} →
    t.Sized maxCells maxKeys → (t.leafFor key).cells.length ≤ maxCells
  | 0, _, ht => ht
  | _ + 1, n, ht => (ht.2.2 _ (Kids.pick_mem_children key n.kids)).leafFor

omit [LinearOrder K] in
theorem Sized.of_mem_leaves {maxCells maxKeys : ℕ} {l : Leaf K V} : {h : ℕ} → {t : Tree K V h} →
    t.Sized maxCells maxKeys → l ∈ t.leaves → l.cells.length ≤ maxCells
  | 0, _, ht, hl => by
    rw [List.mem_singleton.mp hl]
    exact ht
  | _ + 1, _, ht, hl => by
    obtain ⟨c, hc, hlc⟩ := List.mem_flatMap.mp hl
    exact (ht.2.2 c hc).of_mem_leaves hlc

/-! ## Rewriting cells in place -/

/-- Rewriting cells does not move a key to another leaf. -/
theorem leafFor_mapCells (key : K) {f : List (K × V) → List (K × V)} : {h : ℕ} →
    (t : Tree K V h) → (t.mapCells f).leafFor key = ⟨(t.leafFor key).page, f (t.leafFor key).cells⟩
  | 0, _ => rfl
  | _ + 1, n => by
    rw [mapCells_succ, leafFor, kids_node, Kids.pick_map, leafFor_mapCells key]
    rfl

/-- A cell of a sorted list is known by its key. -/
theorem Sorted.eq_of_fst_eq {cells : List (K × V)} (h : Sorted cells) {a b : K × V} (ha : a ∈ cells)
    (hb : b ∈ cells) (heq : a.1 = b.1) : a = b := by
  have hnd : (cells.map Prod.fst).Nodup := List.pairwise_map.mpr (h.imp fun hlt => hlt.ne)
  exact List.inj_on_of_nodup_map hnd ha hb heq

/-- Rewriting cells keeps the order when every leaf keeps ascending keys among its old ones. -/
theorem Ordered.mapCells {f : List (K × V) → List (K × V)}
    (hf : ∀ cells, ((f cells).map Prod.fst).Sublist (cells.map Prod.fst)) : {h : ℕ} →
    {t : Tree K V h} → {lo : WithBot K} → {hi : WithTop K} → t.Ordered lo hi →
    (t.mapCells f).Ordered lo hi
  | 0, l, lo, hi, ht => by
    obtain ⟨hs, hr⟩ := ht
    have hsort : (l.cells.map Prod.fst).Pairwise (· < ·) := List.pairwise_map.mpr hs
    refine ⟨List.pairwise_map.mp (hsort.sublist (hf _)), fun c hc => ?_⟩
    obtain ⟨c', hc', heq⟩ := List.mem_map.mp ((hf _).mem (List.mem_map_of_mem hc))
    exact heq ▸ hr c' hc'
  | _ + 1, _, _, _, ht => Kids.Ordered.map (fun _ _ _ _ hc => hc.mapCells hf) ht

omit [LinearOrder K] in
theorem Sized.mapCells {f : List (K × V) → List (K × V)} {maxCells maxKeys : ℕ}
    (hf : ∀ cells, (f cells).length ≤ cells.length) : {h : ℕ} → {t : Tree K V h} →
    t.Sized maxCells maxKeys → (t.mapCells f).Sized maxCells maxKeys
  | 0, _, ht => (hf _).trans ht
  | h + 1, n, ht => by
    have hseps : (n.mapCells f).kids.seps = n.kids.seps := Kids.seps_map ..
    refine ⟨hseps ▸ ht.1, hseps ▸ ht.2.1, fun c hc => ?_⟩
    obtain ⟨c', hc', rfl⟩ := List.mem_map.mp (Kids.children_map (Tree.mapCells f) n.kids ▸ hc)
    exact (ht.2.2 c' hc').mapCells hf

end Order

end Tree

end BPlusTree
