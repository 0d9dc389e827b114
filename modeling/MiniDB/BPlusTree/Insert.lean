import MiniDB.BPlusTree.Tree
import Mathlib.Data.List.Nodup
import Mathlib.Data.Multiset.Range
import Mathlib.Tactic.Abel

/-!
# Insertion into B+ trees

Insertion descends to the leaf whose range holds the key, adds the cell there and, where a node has
become too large, cuts it in two and hands a separator up.  A node that is cut keeps its label for
the left half; the right half takes the next unused label.  At the root the roles change: the root
keeps its label and both halves take new ones, so that the label of the root never changes.

* `insertCell`: the sorted insertion into a list of cells.
* `Ins`, `Tree.insert`, `insertRoot`: insertion into a subtree and into a whole tree.
* `closeNode`, `closeRoot`: what becomes of a node whose child came back in two parts.
* `contents_insertRoot`, `ordered_insertRoot`, `sized_insertRoot`, `labels_insertRoot`: insertion
  adds exactly one cell, keeps the representation invariant, and uses each new label once.
* `lookup_insertCell`: what looking a key up gives afterwards.
-/

namespace BPlusTree

variable {K V : Type}

/-- What an insertion makes of a subtree: one subtree again, or two with a separator. -/
inductive Ins (K α : Type) where
  | done (tree : α)
  | split (left : α) (sep : K) (right : α)

/-- The outcome as a sequence, to be put in place of the old subtree. -/
def Ins.kids {α : Type} : Ins K α → Kids K α
  | .done t => .one t
  | .split left sep right => .cons left sep (.one right)

section Cells

variable [LinearOrder K]

/-- Insert a cell before the first cell with a larger key. -/
def insertCell (key : K) (v : V) : List (K × V) → List (K × V)
  | [] => [(key, v)]
  | c :: cs => if key < c.1 then (key, v) :: c :: cs else c :: insertCell key v cs

theorem insertCell_perm (key : K) (v : V) (cs : List (K × V)) :
    (insertCell key v cs).Perm ((key, v) :: cs) := by
  induction cs with
  | nil => exact List.Perm.refl _
  | cons c cs ih =>
    rw [insertCell]
    split
    · exact List.Perm.refl _
    · exact (ih.cons c).trans (List.Perm.swap _ _ _)

theorem mem_insertCell {key : K} {v : V} {cs : List (K × V)} {a : K × V} :
    a ∈ insertCell key v cs ↔ a = (key, v) ∨ a ∈ cs := by
  rw [(insertCell_perm key v cs).mem_iff, List.mem_cons]

theorem length_insertCell (key : K) (v : V) (cs : List (K × V)) :
    (insertCell key v cs).length = cs.length + 1 :=
  (insertCell_perm key v cs).length_eq

theorem insertCell_append_right {key : K} {v : V} {xs ys : List (K × V)}
    (h : ∀ a ∈ xs, a.1 ≤ key) : insertCell key v (xs ++ ys) = xs ++ insertCell key v ys := by
  induction xs with
  | nil => rfl
  | cons a xs ih =>
    have ha : ¬ key < a.1 := not_lt.mpr (h a List.mem_cons_self)
    rw [List.cons_append, insertCell, if_neg ha, ih fun b hb => h b (List.mem_cons_of_mem _ hb),
      List.cons_append]

theorem insertCell_append_left {key : K} {v : V} {xs ys : List (K × V)}
    (h : ∀ a ∈ ys, key < a.1) : insertCell key v (xs ++ ys) = insertCell key v xs ++ ys := by
  induction xs with
  | nil =>
    cases ys with
    | nil => rfl
    | cons b ys =>
      have hb : insertCell key v (b :: ys) = (key, v) :: b :: ys :=
        if_pos (h b List.mem_cons_self)
      rw [List.nil_append, hb]
      rfl
  | cons a xs ih =>
    rw [List.cons_append, insertCell, insertCell]
    split
    · rfl
    · rw [ih, List.cons_append]

theorem sorted_insertCell {key : K} {v : V} {cs : List (K × V)} (hs : Tree.Sorted cs)
    (hkey : ∀ a ∈ cs, a.1 ≠ key) : Tree.Sorted (insertCell key v cs) := by
  induction cs with
  | nil => exact List.pairwise_singleton _ _
  | cons c cs ih =>
    obtain ⟨h1, h2⟩ := List.pairwise_cons.mp hs
    rw [insertCell]
    split
    · next hlt =>
      refine List.pairwise_cons.mpr ⟨fun a ha => ?_, hs⟩
      rcases List.mem_cons.mp ha with rfl | ha
      · exact hlt
      · exact hlt.trans (h1 a ha)
    · next hge =>
      have hlt : c.1 < key := lt_of_le_of_ne (not_lt.mp hge) (hkey c List.mem_cons_self)
      refine List.pairwise_cons.mpr
        ⟨fun a ha => ?_, ih h2 fun a ha => hkey a (List.mem_cons_of_mem _ ha)⟩
      rcases mem_insertCell.mp ha with rfl | ha
      · exact hlt
      · exact h1 a ha

/-- Looking a key up after an insertion. -/
theorem lookup_insertCell {key k : K} {v : V} {cs : List (K × V)} (hkey : ∀ a ∈ cs, a.1 ≠ key) :
    (insertCell key v cs).lookup k = if k = key then some v else cs.lookup k := by
  induction cs with
  | nil => rw [insertCell, List.lookup_cons]; split <;> simp_all
  | cons c cs ih =>
    have ih' := ih fun a ha => hkey a (List.mem_cons_of_mem _ ha)
    have hc : c.1 ≠ key := hkey c List.mem_cons_self
    rw [insertCell]
    split
    · rw [List.lookup_cons]
      split <;> simp_all
    · rw [List.lookup_cons, List.lookup_cons, ih']
      split <;> simp_all

end Cells

/-! ## The algorithm -/

section Algorithm

variable [LinearOrder K] (maxCells maxKeys : ℕ) (key : K) (v : V)

/-- Add a cell to a leaf; a leaf with `maxCells` cells is cut in the middle. -/
def insertLeaf (fresh : ℕ) (l : Tree K V 0) : Ins K (Tree K V 0) × ℕ :=
  let cells := insertCell key v l.cells
  if l.cells.length < maxCells then (.done (.leaf l.page cells), fresh)
  else
    match cells.drop ((maxCells + 1) / 2) with
    | [] => (.done (.leaf l.page cells), fresh)
    | c :: cs =>
      (.split (.leaf l.page (cells.take ((maxCells + 1) / 2))) c.1 (.leaf fresh (c :: cs)),
        fresh + 1)

/-- Make a node of the children that an insertion left; a node with more than `maxKeys` separators
is cut at the one in the middle, which goes up. -/
def closeNode {h : ℕ} (page fresh : ℕ) (k : Kids K (Tree K V h)) : Ins K (Tree K V (h + 1)) × ℕ :=
  if k.seps.length ≤ maxKeys then (.done (.node page k), fresh)
  else
    match k.splitAt (maxKeys / 2) with
    | none => (.done (.node page k), fresh)
    | some (l, p, r) => (.split (.node page l) p (.node fresh r), fresh + 1)

/-- Insert into a subtree that is not the root.  Returns the outcome and the next unused label. -/
def Tree.insert : {h : ℕ} → ℕ → Tree K V h → Ins K (Tree K V h) × ℕ
  | 0, fresh, l => insertLeaf maxCells key v fresh l
  | _ + 1, fresh, n =>
    let r := Tree.insert fresh (n.kids.pick key)
    closeNode maxKeys n.page r.2 (n.kids.place key r.1.kids)

/-- A tree of any height. -/
abbrev AnyTree (K V : Type) := (h : ℕ) × Tree K V h

/-- Insert into a whole tree.  When the root has to be cut, both halves take new labels and the old
root page becomes their parent. -/
def insertRoot (fresh : ℕ) : AnyTree K V → AnyTree K V × ℕ
  | ⟨0, l⟩ =>
    match insertLeaf maxCells key v fresh l with
    | (.done l', next) => (⟨0, l'⟩, next)
    | (.split left sep right, next) =>
      (⟨1, .node l.page (.cons (.leaf next left.cells) sep (.one right))⟩, next + 1)
  | ⟨h + 1, n⟩ =>
    let r := Tree.insert maxCells maxKeys key v fresh (n.kids.pick key)
    let k := n.kids.place key r.1.kids
    if k.seps.length ≤ maxKeys then (⟨h + 1, .node n.page k⟩, r.2)
    else
      match k.splitAt (maxKeys / 2) with
      | none => (⟨h + 1, .node n.page k⟩, r.2)
      | some (left, p, right) =>
        (⟨h + 2, .node n.page (.cons (.node r.2 left) p (.one (.node (r.2 + 1) right)))⟩, r.2 + 2)

/-- Make a root of the children that an insertion left; when there are too many, both halves take
new labels. -/
def closeRoot {h : ℕ} (page fresh : ℕ) (k : Kids K (Tree K V h)) : AnyTree K V × ℕ :=
  if k.seps.length ≤ maxKeys then (⟨h + 1, .node page k⟩, fresh)
  else
    match k.splitAt (maxKeys / 2) with
    | none => (⟨h + 1, .node page k⟩, fresh)
    | some (l, p, r) =>
      (⟨h + 2, .node page (.cons (.node fresh l) p (.one (.node (fresh + 1) r)))⟩, fresh + 2)

end Algorithm

/-! ## One node at a time -/

section Cut

variable [LinearOrder K] {maxCells maxKeys : ℕ} {key : K} {v : V}

variable (maxCells key v) in
/-- A full leaf with one more cell has a cell in the middle. -/
theorem exists_insertCell_halves {cells : List (K × V)} (hge : maxCells ≤ cells.length) :
    ∃ a c b, insertCell key v cells = a ++ c :: b ∧ a.length = (maxCells + 1) / 2 := by
  have hlen := length_insertCell key v cells
  have hmid : (maxCells + 1) / 2 < (insertCell key v cells).length := by omega
  refine ⟨(insertCell key v cells).take ((maxCells + 1) / 2),
    (insertCell key v cells)[(maxCells + 1) / 2],
    (insertCell key v cells).drop ((maxCells + 1) / 2 + 1), ?_, ?_⟩
  · rw [← List.drop_eq_getElem_cons hmid, List.take_append_drop]
  · rw [List.length_take]
    omega

variable (maxCells key v) in
/-- How an insertion into a leaf can end. -/
theorem insertLeaf_cases (fresh : ℕ) (l : Tree K V 0) :
    (l.cells.length < maxCells ∧ insertLeaf maxCells key v fresh l =
        (.done (.leaf l.page (insertCell key v l.cells)), fresh)) ∨
      (maxCells ≤ l.cells.length ∧ ∃ a c b, insertCell key v l.cells = a ++ c :: b ∧
        a.length = (maxCells + 1) / 2 ∧ insertLeaf maxCells key v fresh l =
          (.split (.leaf l.page a) c.1 (.leaf fresh (c :: b)), fresh + 1)) := by
  rcases lt_or_ge l.cells.length maxCells with hlt | hge
  · exact Or.inl ⟨hlt, by rw [insertLeaf, if_pos hlt]⟩
  · obtain ⟨a, c, b, hins, ha⟩ := exists_insertCell_halves maxCells key v hge
    refine Or.inr ⟨hge, a, c, b, hins, ha, ?_⟩
    rw [insertLeaf, if_neg (not_lt.mpr hge)]
    simp only [hins, List.drop_left' ha, List.take_left' ha]

omit [LinearOrder K] in
variable (maxKeys) in
/-- How closing a node can end. -/
theorem closeNode_cases {h : ℕ} (page fresh : ℕ) (k : Kids K (Tree K V h)) :
    (k.seps.length ≤ maxKeys ∧ closeNode maxKeys page fresh k = (.done (.node page k), fresh)) ∨
      (maxKeys < k.seps.length ∧ ∃ l p r, k.splitAt (maxKeys / 2) = some (l, p, r) ∧
        k = l.append p r ∧ l.seps.length = maxKeys / 2 ∧
        closeNode maxKeys page fresh k =
          (.split (.node page l) p (.node fresh r), fresh + 1)) := by
  rcases Nat.lt_or_ge maxKeys k.seps.length with hlt | hge
  · refine Or.inr ⟨hlt, ?_⟩
    obtain ⟨l, p, r, hs⟩ := Kids.exists_splitAt (m := maxKeys / 2) (k := k) (by omega)
    obtain ⟨hk, hl⟩ := Kids.splitAt_eq_some hs
    refine ⟨l, p, r, hs, hk, hl, ?_⟩
    rw [closeNode, if_neg (not_le.mpr hlt), hs]
  · exact Or.inl ⟨hge, by rw [closeNode, if_pos hge]⟩

end Cut

/-! ## What an insertion keeps

Each fact is shown for the outcome of an insertion as a sequence of subtrees, which is then what
replaces the old child one level up. -/

section Keeps

variable [LinearOrder K] {maxCells maxKeys : ℕ} {key : K} {v : V}

/-- The new labels of an insertion: those from `a` up to `b`. -/
def newLabels (a b : ℕ) : Multiset ℕ := (List.range' a (b - a) : Multiset ℕ)

theorem newLabels_self (a : ℕ) : newLabels a a = 0 := by
  simp [newLabels]

theorem newLabels_succ {a b : ℕ} (h : a ≤ b) : newLabels a (b + 1) = newLabels a b + {b} := by
  have hlen : b + 1 - a = (b - a) + 1 := by omega
  have hend : a + 1 * (b - a) = b := by omega
  rw [newLabels, newLabels, hlen, List.range'_concat, hend]
  rfl

theorem newLabels_add {a b c : ℕ} (hab : a ≤ b) (hbc : b ≤ c) :
    newLabels a b + newLabels b c = newLabels a c := by
  have hlen : c - a = (b - a) + (c - b) := by omega
  have hmid : a + 1 * (b - a) = b := by omega
  rw [newLabels, newLabels, newLabels, Multiset.coe_add, hlen, ← List.range'_append, hmid]

theorem mem_newLabels {a b p : ℕ} : p ∈ newLabels a b ↔ a ≤ p ∧ p < b := by
  rw [newLabels, Multiset.mem_coe, List.mem_range'_1]
  omega

theorem nodup_newLabels (a b : ℕ) : (newLabels a b).Nodup := List.nodup_range'

/-- Replacing the picked child by what the insertion left of it inserts into the contents. -/
theorem flatMap_place {α : Type} {P : WithBot K → WithTop K → α → Prop} {f : α → List (K × V)}
    (hP : ∀ lo hi c, P lo hi c → Tree.Sorted (f c) ∧ Tree.InRange lo hi (f c)) {k new : Kids K α}
    {lo : WithBot K} {hi : WithTop K} (hk : k.Ordered P lo hi) (hlo : lo ≤ key)
    (hnew : new.children.flatMap f = insertCell key v (f (k.pick key))) :
    (k.place key new).children.flatMap f = insertCell key v (k.children.flatMap f) := by
  induction k generalizing lo with
  | one c => simpa [Kids.place, Kids.pick] using hnew
  | cons c s t ih =>
    obtain ⟨-, -, h3, h4⟩ := hk
    rw [Kids.place]
    rw [Kids.pick] at hnew
    split
    · next hlt =>
      rw [if_pos hlt] at hnew
      have hafter : ∀ a ∈ t.children.flatMap f, key < a.1 := fun a ha =>
        lt_of_lt_of_le hlt (WithBot.coe_le_coe.mp ((Tree.sorted_flatMap hP h4).2 a ha).1)
      rw [Kids.children_append, List.flatMap_append, hnew, Kids.children_cons, List.flatMap_cons,
        insertCell_append_left hafter]
    · next hge =>
      rw [if_neg hge] at hnew
      have hbefore : ∀ a ∈ f c, a.1 ≤ key := fun a ha =>
        (lt_of_lt_of_le (WithTop.coe_lt_coe.mp ((hP _ _ c h3).2 a ha).2) (not_lt.mp hge)).le
      rw [Kids.children_cons, List.flatMap_cons, Kids.children_cons, List.flatMap_cons,
        ih h4 (WithBot.coe_le_coe.mpr (not_lt.mp hge)) hnew, insertCell_append_right hbefore]

omit [LinearOrder K] in
theorem contents_closeNode {h : ℕ} (page fresh : ℕ) (k : Kids K (Tree K V h)) :
    (closeNode maxKeys page fresh k).1.kids.children.flatMap Tree.contents =
      k.children.flatMap Tree.contents := by
  rcases closeNode_cases maxKeys page fresh k with
    ⟨-, heq⟩ | ⟨-, l, p, r, -, hk, -, heq⟩
  · simp [heq, Ins.kids, Tree.contents_succ]
  · subst hk
    simp [heq, Ins.kids, Tree.contents_succ]

/-- Insertion adds one cell to the contents. -/
theorem contents_insert (fresh : ℕ) : {h : ℕ} → {t : Tree K V h} → {lo : WithBot K} →
    {hi : WithTop K} → t.Ordered lo hi → lo ≤ key → (key : WithTop K) < hi →
    (t.insert maxCells maxKeys key v fresh).1.kids.children.flatMap Tree.contents =
      insertCell key v t.contents
  | 0, l, _, _, _, _, _ => by
    rw [Tree.insert, Tree.contents_zero]
    rcases insertLeaf_cases maxCells key v fresh l with
      ⟨-, heq⟩ | ⟨-, a, c, b, hcells, -, heq⟩
    · simp [heq, Ins.kids, Tree.contents_zero]
    · simp [heq, Ins.kids, Tree.contents_zero, hcells]
  | h + 1, n, _, _, ht, hlo, hhi => by
    obtain ⟨lo', hi', g1, g2, g3⟩ := Kids.Ordered.pick ht hlo hhi
    rw [Tree.insert, contents_closeNode, Tree.contents_succ]
    exact flatMap_place (fun _ _ _ hc => hc.sorted_contents) ht hlo
      (contents_insert fresh g3 g1 g2)

omit [LinearOrder K] in
theorem labels_closeNode {h : ℕ} (page fresh : ℕ) (k : Kids K (Tree K V h)) :
    fresh ≤ (closeNode maxKeys page fresh k).2 ∧
      ((closeNode maxKeys page fresh k).1.kids.children.map Tree.labels).sum =
        {page} + (k.children.map Tree.labels).sum +
          newLabels fresh (closeNode maxKeys page fresh k).2 := by
  rcases closeNode_cases _ page fresh k with
    ⟨-, heq⟩ | ⟨-, l, p, r, -, hk, -, heq⟩
  · rw [heq, newLabels_self]
    simp [Ins.kids, Tree.labels_succ]
  · rw [heq, newLabels_succ le_rfl, newLabels_self, hk]
    refine ⟨Nat.le_succ _, ?_⟩
    simp only [Ins.kids, Kids.children_cons, Kids.children_one, List.map_cons, List.map_nil,
      List.sum_cons, List.sum_nil, Tree.labels_succ, Tree.page_node, Tree.kids_node,
      Kids.children_append, List.map_append, List.sum_append]
    abel

variable (maxCells maxKeys key v) in
/-- Insertion uses every label from `fresh` on once, and no other. -/
theorem labels_insert (fresh : ℕ) : {h : ℕ} → (t : Tree K V h) →
    fresh ≤ (t.insert maxCells maxKeys key v fresh).2 ∧
      ((t.insert maxCells maxKeys key v fresh).1.kids.children.map Tree.labels).sum =
        t.labels + newLabels fresh (t.insert maxCells maxKeys key v fresh).2
  | 0, l => by
    rw [Tree.insert]
    rcases insertLeaf_cases _ _ v fresh l with
      ⟨-, heq⟩ | ⟨-, a, c, b, -, -, heq⟩
    · rw [heq, newLabels_self]
      simp [Ins.kids, Tree.labels_zero]
    · rw [heq, newLabels_succ le_rfl, newLabels_self]
      simp [Ins.kids, Tree.labels_zero]
  | h + 1, n => by
    obtain ⟨hle, hlab⟩ := labels_insert fresh (n.kids.pick key)
    rw [Tree.insert]
    obtain ⟨hle', hlab'⟩ := labels_closeNode n.page
      ((n.kids.pick key).insert maxCells maxKeys key v fresh).2
      (n.kids.place key ((n.kids.pick key).insert maxCells maxKeys key v fresh).1.kids)
    refine ⟨hle.trans hle', ?_⟩
    rw [hlab', ((Kids.children_place_perm key n.kids _).map Tree.labels).sum_eq, List.map_append,
      List.sum_append, hlab, Tree.labels_perm (Kids.children_perm key n.kids),
      ← newLabels_add hle hle']
    abel

/-- The labels of a node after an insertion below it. -/
theorem labels_place (fresh : ℕ) {h : ℕ} (n : Tree K V (h + 1)) :
    {n.page} + ((n.kids.place key ((n.kids.pick key).insert maxCells maxKeys key v
        fresh).1.kids).children.map Tree.labels).sum =
      n.labels + newLabels fresh ((n.kids.pick key).insert maxCells maxKeys key v fresh).2 := by
  rw [((Kids.children_place_perm key n.kids _).map Tree.labels).sum_eq, List.map_append,
    List.sum_append, (labels_insert _ _ _ _ fresh _).2,
      Tree.labels_perm (Kids.children_perm key n.kids)]
  abel

theorem ordered_insertLeaf (hmax : 1 ≤ maxCells) (fresh : ℕ) {l : Tree K V 0} {lo : WithBot K}
    {hi : WithTop K} (hl : l.Ordered lo hi) (hlo : lo ≤ key) (hhi : (key : WithTop K) < hi)
    (hkey : ∀ a ∈ l.cells, a.1 ≠ key) :
    (insertLeaf maxCells key v fresh l).1.kids.Ordered (fun lo hi c => c.Ordered lo hi) lo hi := by
  have hsort := sorted_insertCell (v := v) hl.1 hkey
  have hrange : Tree.InRange lo hi (insertCell key v l.cells) := fun a ha => by
    rcases mem_insertCell.mp ha with rfl | ha
    · exact ⟨hlo, hhi⟩
    · exact hl.2 a ha
  rcases insertLeaf_cases _ _ v fresh l with
    ⟨-, heq⟩ | ⟨-, a, c, b, hcells, hlen, heq⟩
  · rw [heq]
    exact ⟨hsort, hrange⟩
  · rw [hcells] at hsort hrange
    obtain ⟨hsa, hsb, hab⟩ := List.pairwise_append.mp hsort
    have hca : ∀ x ∈ a, x.1 < c.1 := fun x hx => hab x hx c List.mem_cons_self
    have hcb : ∀ x ∈ c :: b, c.1 ≤ x.1 := fun x hx => by
      rcases List.mem_cons.mp hx with rfl | hx
      · exact le_rfl
      · exact ((List.pairwise_cons.mp hsb).1 x hx).le
    -- the left half is not empty, so its first key separates the lower bound from `c`
    obtain ⟨x, a', rfl⟩ := List.exists_cons_of_length_pos (l := a) (by omega)
    have hloc : lo < c.1 := lt_of_le_of_lt (hrange x (by simp)).1
      (WithBot.coe_lt_coe.mpr (hca x List.mem_cons_self))
    rw [heq]
    refine ⟨hloc, (hrange c (by simp)).2, ⟨hsa, fun y hy => ?_⟩, hsb, fun y hy => ?_⟩
    · exact ⟨(hrange y (List.mem_append_left _ hy)).1, WithTop.coe_lt_coe.mpr (hca y hy)⟩
    · exact ⟨WithBot.coe_le_coe.mpr (hcb y hy), (hrange y (List.mem_append_right _ hy)).2⟩

theorem ordered_closeNode {h : ℕ} (page fresh : ℕ) {k : Kids K (Tree K V h)} {lo : WithBot K}
    {hi : WithTop K} (hk : k.Ordered (fun lo hi c => c.Ordered lo hi) lo hi) :
    (closeNode maxKeys page fresh k).1.kids.Ordered (fun lo hi c => c.Ordered lo hi) lo hi := by
  rcases closeNode_cases _ page fresh k with
    ⟨-, heq⟩ | ⟨-, l, p, r, -, rfl, -, heq⟩
  · rw [heq]
    exact hk
  · rw [heq]
    exact Kids.ordered_append.mp hk

/-- Insertion keeps the order. -/
theorem ordered_insert (hmax : 1 ≤ maxCells) (fresh : ℕ) : {h : ℕ} → {t : Tree K V h} →
    {lo : WithBot K} → {hi : WithTop K} → t.Ordered lo hi → lo ≤ key → (key : WithTop K) < hi →
    (∀ a ∈ (t.leafFor key).cells, a.1 ≠ key) →
    (t.insert maxCells maxKeys key v fresh).1.kids.Ordered (fun lo hi c => c.Ordered lo hi) lo hi
  | 0, _, _, _, ht, hlo, hhi, hkey => ordered_insertLeaf hmax fresh ht hlo hhi hkey
  | _ + 1, _, _, _, ht, hlo, hhi, hkey =>
    ordered_closeNode _ _ (Kids.Ordered.place ht hlo hhi fun _ _ hp hlo' hhi' =>
      ordered_insert hmax fresh hp hlo' hhi' hkey)

variable (key v) in
theorem sized_insertLeaf (hmax : 1 ≤ maxCells) (fresh : ℕ) {l : Tree K V 0}
    (hl : l.Sized maxCells maxKeys) :
    ∀ c ∈ (insertLeaf maxCells key v fresh l).1.kids.children, c.Sized maxCells maxKeys := by
  have hlen := length_insertCell key v l.cells
  have hle : l.cells.length ≤ maxCells := hl
  rcases insertLeaf_cases _ _ v fresh l with
    ⟨hlt, heq⟩ | ⟨hge, a, c, b, hcells, ha, heq⟩
  · rw [heq]
    intro t ht
    obtain rfl := List.mem_singleton.mp ht
    show (insertCell key v l.cells).length ≤ maxCells
    omega
  · rw [hcells, List.length_append] at hlen
    rw [heq]
    intro t ht
    rcases List.mem_cons.mp ht with rfl | ht
    · show a.length ≤ maxCells
      omega
    · obtain rfl := List.mem_singleton.mp ht
      show (c :: b).length ≤ maxCells
      omega

omit [LinearOrder K] in
theorem sized_closeNode {h : ℕ} (hkeys : 2 ≤ maxKeys) (page fresh : ℕ) {k : Kids K (Tree K V h)}
    (h1 : 1 ≤ k.seps.length) (h2 : k.seps.length ≤ maxKeys + 1)
    (hk : ∀ c ∈ k.children, c.Sized maxCells maxKeys) :
    ∀ c ∈ (closeNode maxKeys page fresh k).1.kids.children, c.Sized maxCells maxKeys := by
  rcases closeNode_cases _ page fresh k with
    ⟨hle, heq⟩ | ⟨hgt, l, p, r, -, rfl, hl, heq⟩
  · rw [heq]
    intro t ht
    obtain rfl := List.mem_singleton.mp ht
    exact ⟨h1, hle, hk⟩
  · rw [Kids.seps_append, List.length_append, List.length_cons] at h2 hgt
    rw [heq]
    intro t ht
    rcases List.mem_cons.mp ht with rfl | ht
    · refine ⟨?_, ?_, fun c hc => hk c ?_⟩
      · rw [Tree.kids_node]; omega
      · rw [Tree.kids_node]; omega
      · exact Kids.children_append l p r ▸ List.mem_append_left _ hc
    · obtain rfl := List.mem_singleton.mp ht
      refine ⟨?_, ?_, fun c hc => hk c ?_⟩
      · rw [Tree.kids_node]; omega
      · rw [Tree.kids_node]; omega
      · exact Kids.children_append l p r ▸ List.mem_append_right _ hc

omit [LinearOrder K] in
theorem length_seps_kids_le {α : Type} (r : Ins K α) : r.kids.seps.length ≤ 1 := by
  cases r <;> simp [Ins.kids]

theorem length_seps_place {α : Type} (k : Kids K α) (r : Ins K α) :
    k.seps.length ≤ (k.place key r.kids).seps.length ∧
      (k.place key r.kids).seps.length ≤ k.seps.length + 1 := by
  have hr := length_seps_kids_le r
  have hi := k.index_le key
  rw [(Kids.lists_place key k r.kids).2]
  simp only [List.length_append, List.length_take, List.length_drop]
  omega

variable (key) in
/-- Every child that is there after an outcome was put in place is sized. -/
theorem sized_place {h : ℕ} {k new : Kids K (Tree K V h)}
    (hk : ∀ c ∈ k.children, c.Sized maxCells maxKeys)
    (hnew : ∀ c ∈ new.children, c.Sized maxCells maxKeys) :
    ∀ c ∈ (k.place key new).children, c.Sized maxCells maxKeys := by
  intro c hc
  rcases List.mem_append.mp ((Kids.children_place_perm key k new).mem_iff.mp hc) with hc | hc
  · exact hnew c hc
  · exact hk c ((Kids.children_perm key k).mem_iff.mpr (List.mem_cons_of_mem _ hc))

variable (key v) in
/-- Insertion keeps the size bounds. -/
theorem sized_insert (hmax : 1 ≤ maxCells) (hkeys : 2 ≤ maxKeys) (fresh : ℕ) : {h : ℕ} →
    {t : Tree K V h} → t.Sized maxCells maxKeys →
    ∀ c ∈ (t.insert maxCells maxKeys key v fresh).1.kids.children, c.Sized maxCells maxKeys
  | 0, _, ht => sized_insertLeaf _ _ hmax fresh ht
  | _ + 1, n, ht => by
    have hpick := ht.2.2 _ (Kids.pick_mem_children key n.kids)
    obtain ⟨g1, g2⟩ := length_seps_place n.kids
      ((n.kids.pick key).insert maxCells maxKeys key v fresh).1
    exact sized_closeNode hkeys _ _ (ht.1.trans g1) (g2.trans (Nat.succ_le_succ ht.2.1))
      (sized_place key ht.2.2 (sized_insert hmax hkeys fresh hpick))

omit [LinearOrder K] in
theorem head_closeNode {h : ℕ} (page fresh : ℕ) (k : Kids K (Tree K V h)) :
    (closeNode maxKeys page fresh k).1.kids.head.page = page ∧
      (closeNode maxKeys page fresh k).1.kids.head.entry = k.head.entry := by
  rcases closeNode_cases _ page fresh k with
    ⟨-, heq⟩ | ⟨-, l, p, r, -, rfl, -, heq⟩
  · rw [heq]
    exact ⟨rfl, rfl⟩
  · rw [heq, Kids.head_append]
    exact ⟨rfl, rfl⟩

variable (maxCells maxKeys key v) in
/-- The leftmost part of what an insertion leaves is where the subtree was. -/
theorem head_insert (fresh : ℕ) : {h : ℕ} → (t : Tree K V h) →
    (t.insert maxCells maxKeys key v fresh).1.kids.head.page = t.page ∧
      (t.insert maxCells maxKeys key v fresh).1.kids.head.entry = t.entry
  | 0, l => by
    rw [Tree.insert]
    rcases insertLeaf_cases _ _ v fresh l with
      ⟨-, heq⟩ | ⟨-, a, c, b, -, -, heq⟩ <;> rw [heq] <;> exact ⟨rfl, rfl⟩
  | h + 1, n => by
    rw [Tree.insert]
    refine ⟨(head_closeNode ..).1, (head_closeNode ..).2.trans ?_⟩
    rw [Kids.head_place (head_insert fresh _).2]
    rfl

end Keeps

/-! ## The whole tree -/

section CloseRoot

variable {maxCells maxKeys : ℕ}

variable (maxKeys) in
/-- How closing the root can end. -/
theorem closeRoot_cases {h : ℕ} (page fresh : ℕ) (k : Kids K (Tree K V h)) :
    (k.seps.length ≤ maxKeys ∧
        closeRoot maxKeys page fresh k = (⟨h + 1, .node page k⟩, fresh)) ∨
      (maxKeys < k.seps.length ∧ ∃ l p r, k = l.append p r ∧ l.seps.length = maxKeys / 2 ∧
        closeRoot maxKeys page fresh k =
          (⟨h + 2, .node page (.cons (.node fresh l) p (.one (.node (fresh + 1) r)))⟩,
            fresh + 2)) := by
  rcases Nat.lt_or_ge maxKeys k.seps.length with hlt | hge
  · obtain ⟨l, p, r, hs⟩ := Kids.exists_splitAt (m := maxKeys / 2) (k := k) (by omega)
    obtain ⟨hk, hl⟩ := Kids.splitAt_eq_some hs
    exact Or.inr ⟨hlt, l, p, r, hk, hl, by rw [closeRoot, if_neg (not_le.mpr hlt), hs]⟩
  · exact Or.inl ⟨hge, by rw [closeRoot, if_pos hge]⟩

/-- The root keeps its label. -/
theorem page_closeRoot {h : ℕ} (page fresh : ℕ) (k : Kids K (Tree K V h)) :
    (closeRoot maxKeys page fresh k).1.2.page = page := by
  rcases closeRoot_cases maxKeys page fresh k with ⟨-, heq⟩ | ⟨-, l, p, r, -, -, heq⟩ <;>
    rw [heq] <;>
    rfl

theorem contents_closeRoot {h : ℕ} (page fresh : ℕ) (k : Kids K (Tree K V h)) :
    (closeRoot maxKeys page fresh k).1.2.contents = k.children.flatMap Tree.contents := by
  rcases closeRoot_cases maxKeys page fresh k with ⟨-, heq⟩ | ⟨-, l, p, r, rfl, -, heq⟩
  · rw [heq, Tree.contents_succ, Tree.kids_node]
  · rw [heq]
    simp [Tree.contents_succ]

theorem ordered_closeRoot [LinearOrder K] {h : ℕ} (page fresh : ℕ) {k : Kids K (Tree K V h)}
    {lo : WithBot K} {hi : WithTop K} (hk : k.Ordered (fun lo hi c => c.Ordered lo hi) lo hi) :
    (closeRoot maxKeys page fresh k).1.2.Ordered lo hi := by
  rcases closeRoot_cases maxKeys page fresh k with ⟨-, heq⟩ | ⟨-, l, p, r, rfl, -, heq⟩
  · rw [heq]
    exact hk
  · rw [heq]
    exact Kids.ordered_append.mp hk

theorem sized_closeRoot {h : ℕ} (hkeys : 2 ≤ maxKeys) (page fresh : ℕ) {k : Kids K (Tree K V h)}
    (h1 : 1 ≤ k.seps.length) (h2 : k.seps.length ≤ maxKeys + 1)
    (hk : ∀ c ∈ k.children, c.Sized maxCells maxKeys) :
    (closeRoot maxKeys page fresh k).1.2.Sized maxCells maxKeys := by
  rcases closeRoot_cases maxKeys page fresh k with ⟨hle, heq⟩ | ⟨hgt, l, p, r, rfl, hl, heq⟩
  · rw [heq]
    exact ⟨h1, hle, hk⟩
  · rw [Kids.seps_append, List.length_append, List.length_cons] at h2 hgt
    rw [Kids.children_append] at hk
    rw [heq]
    refine ⟨le_rfl, by rw [Tree.kids_node]; exact Nat.le_of_succ_le hkeys, fun d hd => ?_⟩
    rcases List.mem_cons.mp hd with rfl | hd
    · refine ⟨?_, ?_, fun c hc => hk c (List.mem_append_left _ hc)⟩
      · rw [Tree.kids_node]; omega
      · rw [Tree.kids_node]; omega
    · obtain rfl := List.mem_singleton.mp hd
      refine ⟨?_, ?_, fun c hc => hk c (List.mem_append_right _ hc)⟩
      · rw [Tree.kids_node]; omega
      · rw [Tree.kids_node]; omega

variable (maxKeys) in
theorem labels_closeRoot {h : ℕ} (page fresh : ℕ) (k : Kids K (Tree K V h)) :
    fresh ≤ (closeRoot maxKeys page fresh k).2 ∧
      (closeRoot maxKeys page fresh k).1.2.labels = {page} + (k.children.map Tree.labels).sum +
        newLabels fresh (closeRoot maxKeys page fresh k).2 := by
  rcases closeRoot_cases maxKeys page fresh k with ⟨-, heq⟩ | ⟨-, l, p, r, rfl, -, heq⟩
  · rw [heq, newLabels_self, add_zero]
    exact ⟨le_rfl, rfl⟩
  · rw [heq, newLabels_succ (Nat.le_succ fresh), newLabels_succ le_rfl, newLabels_self]
    refine ⟨by omega, ?_⟩
    simp only [Tree.labels_succ, Tree.page_node, Tree.kids_node, Kids.children_append,
      Kids.children_cons, Kids.children_one, List.map_append, List.map_cons, List.map_nil,
      List.sum_append, List.sum_cons, List.sum_nil]
    abel

end CloseRoot

section Root

variable [LinearOrder K] {maxCells maxKeys : ℕ} {key : K} {v : V}

/-- How an insertion into a whole tree can end. -/
theorem insertRoot_leaf_cases (fresh : ℕ) (l : Tree K V 0) :
    (l.cells.length < maxCells ∧ insertRoot maxCells maxKeys key v fresh ⟨0, l⟩ =
        (⟨0, .leaf l.page (insertCell key v l.cells)⟩, fresh)) ∨
      (maxCells ≤ l.cells.length ∧ ∃ a c b, insertCell key v l.cells = a ++ c :: b ∧
        a.length = (maxCells + 1) / 2 ∧ insertRoot maxCells maxKeys key v fresh ⟨0, l⟩ =
          (⟨1, .node l.page (.cons (.leaf (fresh + 1) a) c.1 (.one (.leaf fresh (c :: b))))⟩,
            fresh + 2)) := by
  rcases insertLeaf_cases _ _ v fresh l with
    ⟨hlt, heq⟩ | ⟨hge, a, c, b, hcells, ha, heq⟩
  · exact Or.inl ⟨hlt, by rw [insertRoot, heq]⟩
  · exact Or.inr ⟨hge, a, c, b, hcells, ha, by rw [insertRoot, heq]; rfl⟩

/-- The children of the root after an insertion below it, and the next unused label. -/
def rootKids (maxCells maxKeys : ℕ) (key : K) (v : V) (fresh : ℕ) {h : ℕ}
    (n : Tree K V (h + 1)) : Kids K (Tree K V h) × ℕ :=
  let r := (n.kids.pick key).insert maxCells maxKeys key v fresh
  (n.kids.place key r.1.kids, r.2)

/-- An insertion into a tree whose root is a node closes the root at last. -/
theorem insertRoot_node (fresh : ℕ) {h : ℕ} (n : Tree K V (h + 1)) :
    insertRoot maxCells maxKeys key v fresh ⟨h + 1, n⟩ =
      closeRoot maxKeys n.page (rootKids maxCells maxKeys key v fresh n).2
        (rootKids maxCells maxKeys key v fresh n).1 := rfl

variable (maxCells maxKeys key v) in
theorem insertRoot_node_cases (fresh : ℕ) {h : ℕ} (n : Tree K V (h + 1)) :
    let k := rootKids maxCells maxKeys key v fresh n
    (k.1.seps.length ≤ maxKeys ∧
        insertRoot maxCells maxKeys key v fresh ⟨h + 1, n⟩ = (⟨h + 1, .node n.page k.1⟩, k.2)) ∨
      (maxKeys < k.1.seps.length ∧ ∃ l p r, k.1 = l.append p r ∧ l.seps.length = maxKeys / 2 ∧
        insertRoot maxCells maxKeys key v fresh ⟨h + 1, n⟩ =
          (⟨h + 2, .node n.page (.cons (.node k.2 l) p (.one (.node (k.2 + 1) r)))⟩,
            k.2 + 2)) :=
  closeRoot_cases maxKeys n.page _ _

/-- The root keeps its label. -/
theorem page_insertRoot (fresh : ℕ) (t : AnyTree K V) :
    (insertRoot maxCells maxKeys key v fresh t).1.2.page = t.2.page := by
  obtain ⟨_ | h, t⟩ := t
  · rcases insertRoot_leaf_cases (v := v)
      fresh t with ⟨-, heq⟩ | ⟨-, a, c, b, -, -, heq⟩ <;> rw [heq] <;> rfl
  · exact page_closeRoot ..

/-- **Insertion adds exactly one cell.** -/
theorem contents_insertRoot (fresh : ℕ) {t : AnyTree K V} (ht : t.2.Ordered ⊥ ⊤) :
    (insertRoot maxCells maxKeys key v fresh t).1.2.contents = insertCell key v t.2.contents := by
  obtain ⟨_ | h, t⟩ := t
  · rcases insertRoot_leaf_cases (v := v)
      fresh t with ⟨-, heq⟩ | ⟨-, a, c, b, hcells, -, heq⟩
    · rw [heq, Tree.contents_zero, Tree.contents_zero, Tree.cells_leaf]
    · rw [heq]
      simp [Tree.contents_succ, Tree.contents_zero, hcells]
  · have hroot : (rootKids maxCells maxKeys key v fresh t).1.children.flatMap Tree.contents =
        insertCell key v t.contents := by
      obtain ⟨lo', hi', g1, g2, g3⟩ := Kids.Ordered.pick ht bot_le (WithTop.coe_lt_top key)
      rw [Tree.contents_succ]
      exact flatMap_place (fun _ _ _ hc => hc.sorted_contents) ht bot_le
        (contents_insert fresh g3 g1 g2)
    rw [insertRoot_node, contents_closeRoot, hroot]

/-- **Insertion keeps the order of the whole tree.** -/
theorem ordered_insertRoot (hmax : 1 ≤ maxCells) (fresh : ℕ) {t : AnyTree K V}
    (ht : t.2.Ordered ⊥ ⊤) (hkey : ∀ a ∈ (t.2.leafFor key).cells, a.1 ≠ key) :
    (insertRoot maxCells maxKeys key v fresh t).1.2.Ordered ⊥ ⊤ := by
  obtain ⟨_ | h, t⟩ := t
  · have hleaf := ordered_insertLeaf (v := v) hmax fresh ht bot_le (WithTop.coe_lt_top key) hkey
    rcases insertLeaf_cases _ _ v fresh t with
      ⟨-, heq⟩ | ⟨-, a, c, b, -, -, heq⟩ <;> rw [heq] at hleaf <;> rw [insertRoot, heq] <;>
      exact hleaf
  · have hroot : (rootKids maxCells maxKeys key v fresh t).1.Ordered
        (fun lo hi c => c.Ordered lo hi) ⊥ ⊤ :=
      Kids.Ordered.place ht bot_le (WithTop.coe_lt_top key) fun _ _ hp hlo hhi =>
        ordered_insert hmax fresh hp hlo hhi hkey
    exact ordered_closeRoot _ _ hroot

/-- **Insertion keeps the size bounds of the whole tree.** -/
theorem sized_insertRoot (hmax : 1 ≤ maxCells) (hkeys : 2 ≤ maxKeys) (fresh : ℕ) {t : AnyTree K V}
    (ht : t.2.Sized maxCells maxKeys) :
    (insertRoot maxCells maxKeys key v fresh t).1.2.Sized maxCells maxKeys := by
  obtain ⟨_ | h, t⟩ := t
  · have hleaf := sized_insertLeaf key v hmax fresh ht
    rcases insertLeaf_cases _ _ v fresh t with
      ⟨-, heq⟩ | ⟨-, a, c, b, -, -, heq⟩ <;> rw [heq] at hleaf <;> rw [insertRoot, heq]
    · exact hleaf _ (List.mem_singleton_self _)
    · refine ⟨le_rfl, by rw [Tree.kids_node]; exact Nat.le_of_succ_le hkeys, fun d hd => ?_⟩
      rcases List.mem_cons.mp hd with rfl | hd
      · exact hleaf (.leaf t.page a) List.mem_cons_self
      · exact hleaf d (List.mem_cons_of_mem _ hd)
  · obtain ⟨g1, g2⟩ := length_seps_place t.kids
      ((t.kids.pick key).insert maxCells maxKeys key v fresh).1
    have hpick := ht.2.2 _ (Kids.pick_mem_children key t.kids)
    have hkids := sized_place key ht.2.2
      (sized_insert key v hmax hkeys fresh hpick)
    exact sized_closeRoot hkeys _ _ (ht.1.trans g1) (g2.trans (Nat.succ_le_succ ht.2.1)) hkids

/-- **Insertion uses every label from `fresh` on once.** -/
theorem labels_insertRoot (fresh : ℕ) (t : AnyTree K V) :
    fresh ≤ (insertRoot maxCells maxKeys key v fresh t).2 ∧
      (insertRoot maxCells maxKeys key v fresh t).1.2.labels =
        t.2.labels + newLabels fresh (insertRoot maxCells maxKeys key v fresh t).2 := by
  obtain ⟨_ | h, t⟩ := t
  · rcases insertRoot_leaf_cases (v := v)
      fresh t with ⟨-, heq⟩ | ⟨-, a, c, b, -, -, heq⟩
    · rw [heq, newLabels_self]
      exact ⟨le_rfl, by rw [add_zero]; rfl⟩
    · rw [heq, newLabels_succ (Nat.le_succ fresh), newLabels_succ le_rfl, newLabels_self]
      refine ⟨by omega, ?_⟩
      simp only [Tree.labels_succ, Tree.labels_zero, Tree.page_node, Tree.kids_node, Tree.page_leaf,
        Kids.children_cons, Kids.children_one, List.map_cons, List.map_nil, List.sum_cons,
        List.sum_nil]
      abel
  · have hkids : fresh ≤ (rootKids maxCells maxKeys key v fresh t).2 :=
      (labels_insert _ _ _ _ fresh _).1
    have hlab : {t.page} + ((rootKids maxCells maxKeys key v fresh t).1.children.map
        Tree.labels).sum = t.labels + newLabels fresh (rootKids maxCells maxKeys key v fresh t).2 :=
      labels_place fresh t
    obtain ⟨hle, hroot⟩ := labels_closeRoot maxKeys t.page
      (rootKids maxCells maxKeys key v fresh t).2 (rootKids maxCells maxKeys key v fresh t).1
    rw [insertRoot_node]
    exact ⟨hkids.trans hle, by rw [hroot, hlab, add_assoc, newLabels_add hkids hle]⟩

end Root

end BPlusTree
