import MiniDB.BPlusTree.Insert

/-!
# Leaves that hold cells

An insertion rewrites one leaf, or puts two leaves that hold cells in its place.  So a tree none of
whose leaves is empty, but perhaps the first one, stays such a tree.

* `Rewritten`: one leaf of a list gives way to leaves that hold cells.
* `Tree.Filled`: all leaves but the first hold cells.
* `rewritten_insertRoot`, `filled_insertRoot`: **what an insertion does to the leaves**.
-/

namespace BPlusTree

variable {K V : Type}

/-- One leaf of the list gives way to others, all of which hold cells. -/
def Rewritten (ls ls' : List (Leaf K V)) : Prop :=
  ∃ before old after new, ls = before ++ old :: after ∧ ls' = before ++ new ++ after ∧ new ≠ [] ∧
    ∀ l ∈ new, l.cells ≠ []

/-- All leaves but the first hold cells. -/
def Tree.Filled {h : ℕ} (t : Tree K V h) : Prop := ∀ l ∈ t.leaves.tail, l.cells ≠ []

theorem Rewritten.append_left {ls ls' : List (Leaf K V)} (h : Rewritten ls ls')
    (xs : List (Leaf K V)) : Rewritten (xs ++ ls) (xs ++ ls') := by
  obtain ⟨before, old, after, new, rfl, rfl, hne, hnew⟩ := h
  exact ⟨xs ++ before, old, after, new, by simp, by simp, hne, hnew⟩

theorem Rewritten.append_right {ls ls' : List (Leaf K V)} (h : Rewritten ls ls')
    (xs : List (Leaf K V)) : Rewritten (ls ++ xs) (ls' ++ xs) := by
  obtain ⟨before, old, after, new, rfl, rfl, hne, hnew⟩ := h
  exact ⟨before, old, after ++ xs, new, by simp, by simp, hne, hnew⟩

/-- The leaves behind the first one still hold cells. -/
theorem Rewritten.tail_ne_nil {ls ls' : List (Leaf K V)} (h : Rewritten ls ls')
    (hls : ∀ l ∈ ls.tail, l.cells ≠ []) : ∀ l ∈ ls'.tail, l.cells ≠ [] := by
  obtain ⟨before, old, after, new, rfl, rfl, hne, hnew⟩ := h
  cases before with
  | nil =>
    obtain ⟨first, rest, rfl⟩ := List.exists_cons_of_ne_nil hne
    intro l hl
    rcases List.mem_append.mp hl with hl | hl
    · exact hnew l (List.mem_cons_of_mem _ hl)
    · exact hls l hl
  | cons first before =>
    intro l hl
    rcases List.mem_append.mp hl with hl | hl
    · rcases List.mem_append.mp hl with hl | hl
      · exact hls l (List.mem_append_left _ hl)
      · exact hnew l hl
    · exact hls l (List.mem_append_right _ (List.mem_cons_of_mem _ hl))

section Insertion

variable [LinearOrder K] {maxCells maxKeys : ℕ} {key : K} {v : V}

theorem insertCell_ne_nil (cells : List (K × V)) : insertCell key v cells ≠ [] := by
  intro h
  have hlen := length_insertCell key v cells
  rw [h] at hlen
  cases hlen

/-- The picked child gives way to the outcome of an insertion into it. -/
theorem rewritten_place {h : ℕ} {k new : Kids K (Tree K V h)}
    (hnew : Rewritten (k.pick key).leaves (new.children.flatMap Tree.leaves)) :
    Rewritten (k.children.flatMap Tree.leaves)
      ((k.place key new).children.flatMap Tree.leaves) := by
  induction k with
  | one c => simpa [Kids.place, Kids.pick] using hnew
  | cons c s t ih =>
    rw [Kids.place]
    rw [Kids.pick] at hnew
    split
    · next hlt =>
      rw [if_pos hlt] at hnew
      rw [Kids.children_append, List.flatMap_append, Kids.children_cons, List.flatMap_cons]
      exact hnew.append_right _
    · next hge =>
      rw [if_neg hge] at hnew
      rw [Kids.children_cons, List.flatMap_cons, Kids.children_cons, List.flatMap_cons]
      exact (ih hnew).append_left _

omit [LinearOrder K] in
theorem leaves_closeNode {h : ℕ} (page fresh : ℕ) (k : Kids K (Tree K V h)) :
    (closeNode maxKeys page fresh k).1.kids.children.flatMap Tree.leaves =
      k.children.flatMap Tree.leaves := by
  rcases closeNode_cases maxKeys page fresh k with
    ⟨-, heq⟩ | ⟨-, l, p, r, -, hk, -, heq⟩
  · simp [heq, Ins.kids, Tree.leaves_succ]
  · subst hk
    simp [heq, Ins.kids, Tree.leaves_succ]

theorem rewritten_insert (hmax : 1 ≤ maxCells) (fresh : ℕ) : {h : ℕ} → (t : Tree K V h) →
    Rewritten t.leaves
      ((t.insert maxCells maxKeys key v fresh).1.kids.children.flatMap Tree.leaves)
  | 0, l => by
    rw [Tree.insert]
    rcases insertLeaf_cases maxCells key v fresh l with
      ⟨-, heq⟩ | ⟨-, a, c, b, -, hlen, heq⟩
    · refine ⟨[], _, [], [⟨l.page, insertCell key v l.cells⟩], rfl, by rw [heq]; rfl, by simp, ?_⟩
      intro d hd
      rw [List.mem_singleton.mp hd]
      exact insertCell_ne_nil _
    · refine ⟨[], _, [], [⟨l.page, a⟩, ⟨fresh, c :: b⟩], rfl, by rw [heq]; rfl, by simp, ?_⟩
      intro d hd
      rcases List.mem_cons.mp hd with rfl | hd
      · refine List.ne_nil_of_length_pos ?_
        show 0 < a.length
        omega
      · rw [List.mem_singleton.mp hd]
        exact List.cons_ne_nil _ _
  | h + 1, n => by
    rw [Tree.insert, leaves_closeNode, Tree.leaves_succ]
    exact rewritten_place (rewritten_insert hmax fresh (n.kids.pick key))

/-- **An insertion rewrites one leaf.** -/
theorem rewritten_insertRoot (hmax : 1 ≤ maxCells) (fresh : ℕ) (t : AnyTree K V) :
    Rewritten t.2.leaves (insertRoot maxCells maxKeys key v fresh t).1.2.leaves := by
  obtain ⟨_ | h, t⟩ := t
  · rcases insertRoot_leaf_cases (v := v) fresh t with ⟨-, heq⟩ | ⟨-, a, c, b, -, hlen, heq⟩
    · refine ⟨[], _, [], [⟨t.page, insertCell key v t.cells⟩], rfl, by rw [heq]; rfl, by simp, ?_⟩
      intro d hd
      rw [List.mem_singleton.mp hd]
      exact insertCell_ne_nil _
    · refine ⟨[], _, [], [⟨fresh + 1, a⟩, ⟨fresh, c :: b⟩], rfl, by rw [heq]; rfl, by simp, ?_⟩
      intro d hd
      rcases List.mem_cons.mp hd with rfl | hd
      · refine List.ne_nil_of_length_pos ?_
        show 0 < a.length
        omega
      · rw [List.mem_singleton.mp hd]
        exact List.cons_ne_nil _ _
  · have hroot : Rewritten t.leaves
        ((rootKids maxCells maxKeys key v fresh t).1.children.flatMap Tree.leaves) :=
      rewritten_place (rewritten_insert hmax fresh (t.kids.pick key))
    rcases insertRoot_node_cases _ _ _ v fresh t with ⟨-, heq⟩ | ⟨-, l, p, r, hk, -, heq⟩
    · rw [heq]
      exact hroot
    · rw [hk] at hroot
      rw [heq]
      simpa [Tree.leaves_succ] using hroot

/-- **An insertion empties no leaf.** -/
theorem filled_insertRoot (hmax : 1 ≤ maxCells) (fresh : ℕ) {t : AnyTree K V} (ht : t.2.Filled) :
    (insertRoot maxCells maxKeys key v fresh t).1.2.Filled :=
  (rewritten_insertRoot hmax fresh t).tail_ne_nil ht

end Insertion

/-- Rewriting the cells of a leaf in place keeps the tree filled when it leaves cells behind. -/
theorem Tree.filled_mapCells {h : ℕ} {t : Tree K V h} {f : List (K × V) → List (K × V)}
    (hf : ∀ l ∈ t.leaves.tail, f l.cells ≠ []) : (t.mapCells f).Filled := by
  intro l hl
  rw [Tree.leaves_mapCells, ← List.map_tail] at hl
  obtain ⟨d, hd, rfl⟩ := List.mem_map.mp hl
  exact hf d hd

end BPlusTree
