import MiniDB.BPlusTree.Insert

/-!
# Which nodes an insertion cuts

Whether a node is cut can be told before the insertion: the leaf for the key is full, and so is
every node between the two.

* `Tree.Overflows`: the insertion cuts the root of the subtree.
* `Tree.cuts`: the inner nodes that are cut, each with the child that was cut before.
* `next_insert`: how many new labels an insertion takes.
-/

namespace BPlusTree

variable {K V : Type} [LinearOrder K]

namespace Tree

/-- Inserting `key` cuts the root of the tree: every node on the way to the leaf for `key` is
full. -/
def Overflows (maxCells maxKeys : ℕ) (key : K) : {h : ℕ} → Tree K V h → Prop
  | 0, l => maxCells ≤ l.cells.length
  | _ + 1, n => Overflows maxCells maxKeys key (n.kids.pick key) ∧ maxKeys ≤ n.kids.seps.length

instance decidableOverflows (maxCells maxKeys : ℕ) (key : K) :
    {h : ℕ} → (t : Tree K V h) → Decidable (t.Overflows maxCells maxKeys key)
  | 0, l => inferInstanceAs (Decidable (maxCells ≤ l.cells.length))
  | _ + 1, n =>
    have := decidableOverflows maxCells maxKeys key (n.kids.pick key)
    inferInstanceAs (Decidable (_ ∧ maxKeys ≤ n.kids.seps.length))

/-- The inner nodes that inserting `key` cuts, from the bottom up, each with the label of the child
that is cut before. -/
def cuts (maxCells maxKeys : ℕ) (key : K) : {h : ℕ} → Tree K V h → List (ℕ × ℕ)
  | 0, _ => []
  | _ + 1, n =>
    cuts maxCells maxKeys key (n.kids.pick key) ++
      if n.Overflows maxCells maxKeys key then [((n.kids.pick key).page, n.page)] else []

variable {maxCells maxKeys : ℕ} {key : K} {v : V}

theorem overflows_zero {l : Tree K V 0} :
    l.Overflows maxCells maxKeys key ↔ maxCells ≤ l.cells.length := Iff.rfl

theorem overflows_succ {h : ℕ} {n : Tree K V (h + 1)} :
    n.Overflows maxCells maxKeys key ↔
      (n.kids.pick key).Overflows maxCells maxKeys key ∧ maxKeys ≤ n.kids.seps.length := Iff.rfl

theorem cuts_succ {h : ℕ} (n : Tree K V (h + 1)) :
    n.cuts maxCells maxKeys key = (n.kids.pick key).cuts maxCells maxKeys key ++
      if n.Overflows maxCells maxKeys key then [((n.kids.pick key).page, n.page)] else [] := rfl

/-- A tree that overflows does so at the leaf. -/
theorem Overflows.leafFor : {h : ℕ} → {t : Tree K V h} → t.Overflows maxCells maxKeys key →
    maxCells ≤ (t.leafFor key).cells.length
  | 0, _, ht => ht
  | _ + 1, _, ht => ht.1.leafFor

/-- Nothing is cut when the leaf has room. -/
theorem cuts_eq_nil : {h : ℕ} → {t : Tree K V h} → (t.leafFor key).cells.length < maxCells →
    t.cuts maxCells maxKeys key = []
  | 0, _, _ => rfl
  | _ + 1, n, hlt => by
    have hno : ¬ n.Overflows maxCells maxKeys key := fun h => absurd h.leafFor (not_le.mpr hlt)
    rw [cuts_succ, cuts_eq_nil (t := n.kids.pick key) hlt, if_neg hno]
    rfl

end Tree

variable {maxCells maxKeys : ℕ} {key : K} {v : V}

variable (key) in
/-- The number of separators after an outcome was put in place. -/
theorem length_seps_place_eq {α : Type} (k : Kids K α) (new : Kids K α) :
    (k.place key new).seps.length = k.seps.length + new.seps.length := by
  have hi := k.index_le key
  rw [(Kids.lists_place key k new).2]
  simp only [List.length_append, List.length_take, List.length_drop]
  omega

/-- **An insertion that overflows cuts the tree, and any other leaves it in one piece.** -/
theorem insert_overflows (fresh : ℕ) : {h : ℕ} → {t : Tree K V h} → t.Sized maxCells maxKeys →
    (t.Overflows maxCells maxKeys key ∧
      ∃ l s r, (t.insert maxCells maxKeys key v fresh).1 = .split l s r) ∨
    (¬ t.Overflows maxCells maxKeys key ∧
      ∃ t', (t.insert maxCells maxKeys key v fresh).1 = .done t')
  | 0, l, _ => by
    rw [Tree.insert, Tree.overflows_zero]
    rcases insertLeaf_cases _ _ v fresh l with
      ⟨hlt, heq⟩ | ⟨hge, a, c, b, -, -, heq⟩
    · exact Or.inr ⟨not_le.mpr hlt, _, by rw [heq]⟩
    · exact Or.inl ⟨hge, _, _, _, by rw [heq]⟩
  | h + 1, n, ht => by
    have hpick := ht.2.2 _ (Kids.pick_mem_children key n.kids)
    have hmax := ht.2.1
    have hlen := length_seps_place_eq key n.kids
      ((n.kids.pick key).insert maxCells maxKeys key v fresh).1.kids
    rw [Tree.insert, Tree.overflows_succ]
    rcases closeNode_cases _ n.page
      ((n.kids.pick key).insert maxCells maxKeys key v fresh).2
      (n.kids.place key ((n.kids.pick key).insert maxCells maxKeys key v fresh).1.kids) with
      ⟨hle, heq⟩ | ⟨hgt, l, p, r, -, -, -, heq⟩
    · refine Or.inr ⟨?_, _, by rw [heq]⟩
      rintro ⟨hov, hfull⟩
      rcases insert_overflows fresh hpick with ⟨-, l, s, r, hs⟩ | ⟨hno, -⟩
      · rw [hs] at hle hlen
        simp only [Ins.kids, Kids.seps_cons, Kids.seps_one, List.length_singleton] at hlen
        simp only [Ins.kids] at hle
        omega
      · exact hno hov
    · refine Or.inl ⟨?_, _, _, _, by rw [heq]⟩
      rcases insert_overflows fresh hpick with ⟨hov, l, s, r, hs⟩ | ⟨-, t', hs⟩
      · rw [hs] at hgt hlen
        simp only [Ins.kids, Kids.seps_cons, Kids.seps_one, List.length_singleton] at hlen
        simp only [Ins.kids] at hgt
        exact ⟨hov, by omega⟩
      · rw [hs] at hgt hlen
        simp only [Ins.kids, Kids.seps_one, List.length_nil] at hlen
        simp only [Ins.kids] at hgt
        omega

theorem Tree.Overflows.exists_split (fresh : ℕ) {h : ℕ} {t : Tree K V h}
    (hov : t.Overflows maxCells maxKeys key) (ht : t.Sized maxCells maxKeys) :
    ∃ l s r, (t.insert maxCells maxKeys key v fresh).1 = .split l s r := by
  rcases insert_overflows (v := v) fresh ht with ⟨-, hsplit⟩ | ⟨hno, -⟩
  · exact hsplit
  · exact absurd hov hno

omit [LinearOrder K] in
/-- Closing a node takes a label exactly when it cuts. -/
theorem next_closeNode {h : ℕ} (page fresh : ℕ) (k : Kids K (Tree K V h)) :
    (closeNode maxKeys page fresh k).2 =
      fresh + if maxKeys < k.seps.length then 1 else 0 := by
  rcases closeNode_cases _ page fresh k with
    ⟨hle, heq⟩ | ⟨hgt, l, p, r, -, -, -, heq⟩
  · rw [heq, if_neg (not_lt.mpr hle), add_zero]
  · rw [heq, if_pos hgt]

/-- The node over a child is cut exactly when both overflow. -/
theorem lt_length_seps_place (fresh : ℕ) {h : ℕ} {n : Tree K V (h + 1)}
    (ht : n.Sized maxCells maxKeys) :
    maxKeys < (n.kids.place key
        ((n.kids.pick key).insert maxCells maxKeys key v fresh).1.kids).seps.length ↔
      n.Overflows maxCells maxKeys key := by
  have hpick := ht.2.2 _ (Kids.pick_mem_children key n.kids)
  have hmax := ht.2.1
  rw [length_seps_place_eq, Tree.overflows_succ]
  rcases insert_overflows (v := v) fresh hpick with ⟨hov, l, s, r, hs⟩ | ⟨hno, t', hs⟩
  · rw [hs]
    simp only [Ins.kids, Kids.seps_cons, Kids.seps_one, List.length_singleton, hov, true_and]
    omega
  · rw [hs]
    simp only [Ins.kids, Kids.seps_one, List.length_nil, hno, false_and, iff_false]
    omega

/-- **An insertion takes one label for the leaf, if that is full, and one for each inner node it
cuts.** -/
theorem next_insert (key : K) (v : V) (fresh : ℕ) :
    {h : ℕ} → {t : Tree K V h} → t.Sized maxCells maxKeys →
    (t.insert maxCells maxKeys key v fresh).2 =
      fresh + (if maxCells ≤ (t.leafFor key).cells.length then 1 else 0) +
        (t.cuts maxCells maxKeys key).length
  | 0, l, _ => by
    rw [Tree.insert]
    rcases insertLeaf_cases _ _ v fresh l with
      ⟨hlt, heq⟩ | ⟨hge, a, c, b, -, -, heq⟩
    · rw [heq, Tree.leafFor, if_neg (not_le.mpr hlt)]
      rfl
    · rw [heq, Tree.leafFor, if_pos hge]
      rfl
  | h + 1, n, ht => by
    have hpick := ht.2.2 _ (Kids.pick_mem_children key n.kids)
    rw [Tree.insert, next_closeNode, next_insert key v fresh hpick, Tree.cuts_succ,
      List.length_append, Tree.leafFor]
    simp only [lt_length_seps_place fresh ht]
    by_cases hov : n.Overflows maxCells maxKeys key
    · simp only [if_pos hov, List.length_singleton, add_assoc]
    · simp only [if_neg hov, List.length_nil, add_assoc]

/-- A root leaf takes two labels when it is full. -/
theorem next_insertRoot_leaf (fresh : ℕ) (l : Tree K V 0) :
    (insertRoot maxCells maxKeys key v fresh ⟨0, l⟩).2 =
      fresh + if maxCells ≤ l.cells.length then 2 else 0 := by
  rcases insertRoot_leaf_cases (v := v)
    fresh l with ⟨hlt, heq⟩ | ⟨hge, a, c, b, -, -, heq⟩
  · rw [heq, if_neg (not_le.mpr hlt)]
    rfl
  · rw [heq, if_pos hge]

/-- An inner root takes two labels when it is cut, on top of those for the nodes below. -/
theorem next_insertRoot_node (key : K) (v : V) (fresh : ℕ) {h : ℕ} {n : Tree K V (h + 1)}
    (ht : n.Sized maxCells maxKeys) :
    (insertRoot maxCells maxKeys key v fresh ⟨h + 1, n⟩).2 =
      fresh + (if maxCells ≤ (n.leafFor key).cells.length then 1 else 0) +
        ((n.kids.pick key).cuts maxCells maxKeys key).length +
          if n.Overflows maxCells maxKeys key then 2 else 0 := by
  have hpick := ht.2.2 _ (Kids.pick_mem_children key n.kids)
  have hnext : (rootKids maxCells maxKeys key v fresh n).2 =
      fresh + (if maxCells ≤ (n.leafFor key).cells.length then 1 else 0) +
        ((n.kids.pick key).cuts maxCells maxKeys key).length := next_insert key v fresh hpick
  have hov : maxKeys < (rootKids maxCells maxKeys key v fresh n).1.seps.length ↔
      n.Overflows maxCells maxKeys key := lt_length_seps_place fresh ht
  rcases insertRoot_node_cases _ _ _ v
    fresh n with ⟨hle, heq⟩ | ⟨hgt, l, p, r, -, -, heq⟩
  · rw [heq, if_neg (fun h => absurd (hov.mpr h) (not_lt.mpr hle)), add_zero, hnext]
  · rw [heq, if_pos (hov.mp hgt), hnext]

end BPlusTree
