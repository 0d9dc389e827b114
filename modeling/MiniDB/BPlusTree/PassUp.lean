import MiniDB.BPlusTree.Levels

/-!
# A split goes up

What came of one node takes its place among the children of the node above.  That one may have to
be cut as well, and so on up to the root.

* `passUp`, `passUpRoot`: the way up below the root, and at the root.
* `levelPages_passUp`, `levelPages_passUpRoot`: **the level of the first node changes in the place
  of that node only**, wherever the nodes above are cut.
* `head_passUp`, `ordered_passUp`, `sized_passUp`: what a subtree keeps on the way.
* `Relabels`, `labels_passUp`: which labels the new nodes have; `next_passUpRoot_le`: how many.
-/

namespace BPlusTree

variable {K V : Type}

section Algorithm

variable [LinearOrder K] (maxKeys : ℕ) (key : K) {d : ℕ} (new : Ins K (Tree K V d)) (fresh : ℕ)

/-- Put `new` in place of the node of height `d` that the descent for `key` passes, and close the
nodes above it. -/
def passUp : (j : ℕ) → Tree K V (d + j) → Ins K (Tree K V (d + j)) × ℕ
  | 0, _ => (new, fresh)
  | j + 1, n =>
    let r := passUp j ((Tree.kids (h := d + j) n).pick key)
    closeNode maxKeys (Tree.page n) r.2 ((Tree.kids (h := d + j) n).place key r.1.kids)

/-- The children of the root when its child on the way up is done with, and the next unused
label. -/
def passUpKids (j : ℕ) (n : Tree K V (d + (j + 1))) : Kids K (Tree K V (d + j)) × ℕ :=
  let r := passUp maxKeys key new fresh j ((Tree.kids (h := d + j) n).pick key)
  ((Tree.kids (h := d + j) n).place key r.1.kids, r.2)

/-- The same for a whole tree. -/
def passUpRoot (j : ℕ) (n : Tree K V (d + (j + 1))) : AnyTree K V × ℕ :=
  let k := passUpKids maxKeys key new fresh j n
  closeRoot maxKeys n.page k.2 k.1

end Algorithm

section Keeps

variable [LinearOrder K] {maxCells maxKeys : ℕ} {key : K} {d : ℕ} {new : Ins K (Tree K V d)}
  {fresh : ℕ} {lo : WithBot K} {hi : WithTop K}

theorem passUp_succ {j : ℕ} (n : Tree K V (d + j + 1)) :
    passUp maxKeys key new fresh (j + 1) n =
      closeNode maxKeys n.page (passUpKids maxKeys key new fresh j n).2
        (passUpKids maxKeys key new fresh j n).1 := rfl

/-! ## The level below -/

omit [LinearOrder K] in
/-- Cutting a node does not change the levels below it. -/
theorem levelPages_closeNode {h : ℕ} (hd : d ≤ h) (page fresh : ℕ) (k : Kids K (Tree K V h)) :
    (closeNode maxKeys page fresh k).1.kids.bind (Tree.levelPages d) =
      k.bind (Tree.levelPages d) := by
  rcases closeNode_cases maxKeys page fresh k with ⟨-, heq⟩ | ⟨-, l, p, r, -, rfl, -, heq⟩
  · rw [heq, Ins.kids, Kids.bind_one, Tree.levelPages_succ hd, Tree.kids_node]
  · rw [heq, Ins.kids, Kids.bind_cons, Kids.bind_one, Tree.levelPages_succ hd,
      Tree.levelPages_succ hd, Tree.kids_node, Tree.kids_node, Kids.bind_append]

omit [LinearOrder K] in
theorem levelPages_closeRoot {h : ℕ} (hd : d ≤ h) (page fresh : ℕ) (k : Kids K (Tree K V h)) :
    (closeRoot maxKeys page fresh k).1.2.levelPages d = k.bind (Tree.levelPages d) := by
  rcases closeRoot_cases maxKeys page fresh k with ⟨-, heq⟩ | ⟨-, l, p, r, rfl, -, heq⟩
  · rw [heq, Tree.levelPages_succ hd, Tree.kids_node]
  · rw [heq, Tree.levelPages_succ (Nat.le_succ_of_le hd), Tree.kids_node, Kids.bind_cons,
      Kids.bind_one, Tree.levelPages_succ hd, Tree.levelPages_succ hd, Tree.kids_node,
      Tree.kids_node, Kids.bind_append]

/-- Replacing a child replaces its part of the level. -/
theorem levelPages_place {h : ℕ} (hd : d ≤ h) {n : Tree K V (h + 1)} (ht : n.Ordered lo hi)
    {out : Kids K (Tree K V h)} {spliced : Kids K ℕ}
    (hout : out.bind (Tree.levelPages d) =
      ((n.kids.pick key).levelPages d).place key spliced) :
    (n.kids.place key out).bind (Tree.levelPages d) = (n.levelPages d).place key spliced := by
  rw [Tree.levelPages_succ hd]
  exact Kids.place_bind (fun _ _ _ hc => hc.levelPages) ht hout

/-- **On the way up the level changes in one place.** -/
theorem levelPages_passUp : {j : ℕ} → {t : Tree K V (d + j)} → {lo : WithBot K} → {hi : WithTop K} →
    t.Ordered lo hi → (passUp maxKeys key new fresh j t).1.kids.bind (Tree.levelPages d) =
      (t.levelPages d).place key (new.kids.bind (Tree.levelPages d))
  | 0, t, _, _, _ => by
    have hone : t.levelPages d = .one t.page := Tree.levelPages_of_le le_rfl
    rw [hone]
    rfl
  | j + 1, n, _, _, ht => by
    obtain ⟨lo', hi', hpick⟩ := Kids.Ordered.exists_of_mem ht (Kids.pick_mem_children key _)
    rw [passUp_succ, levelPages_closeNode (Nat.le_add_right d j)]
    exact levelPages_place (Nat.le_add_right d j) ht (levelPages_passUp hpick)

/-- So it does in the whole tree. -/
theorem levelPages_passUpRoot {j : ℕ} {n : Tree K V (d + (j + 1))} (ht : n.Ordered lo hi) :
    (passUpRoot maxKeys key new fresh j n).1.2.levelPages d =
      (n.levelPages d).place key (new.kids.bind (Tree.levelPages d)) := by
  obtain ⟨lo', hi', hpick⟩ := Kids.Ordered.exists_of_mem ht (Kids.pick_mem_children key _)
  rw [passUpRoot, levelPages_closeRoot (Nat.le_add_right d j)]
  exact levelPages_place (Nat.le_add_right d j) ht (levelPages_passUp hpick)

/-! ## What the way up keeps -/

/-- The leftmost part of what came of a subtree is where the subtree was. -/
theorem head_passUp : {j : ℕ} → {t : Tree K V (d + j)} →
    new.kids.head.page = ((t.level d j).pick key).page →
    new.kids.head.entry = ((t.level d j).pick key).entry → {lo : WithBot K} → {hi : WithTop K} →
    t.Ordered lo hi →
    (passUp maxKeys key new fresh j t).1.kids.head.page = t.page ∧
      (passUp maxKeys key new fresh j t).1.kids.head.entry = t.entry
  | 0, _, hpage, hentry, _, _, _ => ⟨hpage, hentry⟩
  | j + 1, n, hpage, hentry, _, _, ht => by
    obtain ⟨lo', hi', hpick⟩ := Kids.Ordered.exists_of_mem ht (Kids.pick_mem_children key _)
    rw [Tree.pick_level_succ ht] at hpage hentry
    rw [passUp_succ]
    refine ⟨(head_closeNode ..).1, (head_closeNode ..).2.trans ?_⟩
    exact Kids.head_place (head_passUp hpage hentry hpick).2

/-- What fits the range of the first node keeps the order all the way up. -/
theorem ordered_passUp : {j : ℕ} → {t : Tree K V (d + j)} → {lo : WithBot K} → {hi : WithTop K} →
    t.Ordered lo hi →
    new.kids.Ordered (fun lo hi c => c.Ordered lo hi) ((t.level d j).bounds key lo hi).1
      ((t.level d j).bounds key lo hi).2 →
    (passUp maxKeys key new fresh j t).1.kids.Ordered (fun lo hi c => c.Ordered lo hi) lo hi
  | 0, _, _, _, _, hnew => hnew
  | j + 1, n, lo, hi, ht, hnew => by
    rw [Tree.bounds_level_succ ht] at hnew
    rw [passUp_succ]
    exact ordered_closeNode _ _ (Kids.Ordered.place_bounds ht
      (ordered_passUp (Kids.Ordered.pick_bounds ht key) hnew))

variable (maxKeys key new fresh) in
/-- A node on the way up has one separator more at most. -/
theorem length_seps_passUpKids {j : ℕ} {n : Tree K V (d + (j + 1))}
    (ht : Tree.Sized maxCells maxKeys (h := d + j + 1) n) :
    1 ≤ (passUpKids maxKeys key new fresh j n).1.seps.length ∧
      (passUpKids maxKeys key new fresh j n).1.seps.length ≤ maxKeys + 1 := by
  have h1 := ht.1
  have h2 := ht.2.1
  have hlen := length_seps_place_eq key (Tree.kids (h := d + j) n)
    (passUp maxKeys key new fresh j ((Tree.kids (h := d + j) n).pick key)).1.kids
  have hone := length_seps_kids_le
    (passUp maxKeys key new fresh j ((Tree.kids (h := d + j) n).pick key)).1
  rw [passUpKids, hlen]
  omega

theorem sized_passUp (hkeys : 2 ≤ maxKeys)
    (hnew : ∀ c ∈ new.kids.children, c.Sized maxCells maxKeys) :
    {j : ℕ} → {t : Tree K V (d + j)} → t.Sized maxCells maxKeys →
    ∀ c ∈ (passUp maxKeys key new fresh j t).1.kids.children, c.Sized maxCells maxKeys
  | 0, _, _ => hnew
  | j + 1, n, ht => by
    have hpick := ht.2.2 _ (Kids.pick_mem_children key _)
    obtain ⟨g1, g2⟩ := length_seps_passUpKids maxKeys key new fresh ht
    rw [passUp_succ]
    exact sized_closeNode hkeys _ _ g1 g2 (sized_place key ht.2.2 (sized_passUp hkeys hnew hpick))

/-! ## Labels -/

omit [LinearOrder K] in
theorem next_closeRoot_le {h : ℕ} (page fresh : ℕ) (k : Kids K (Tree K V h)) :
    (closeRoot maxKeys page fresh k).2 ≤ fresh + 2 := by
  rcases closeRoot_cases maxKeys page fresh k with ⟨-, heq⟩ | ⟨-, l, p, r, -, -, heq⟩
  · rw [heq]
    exact Nat.le_add_right fresh 2
  · rw [heq]

/-- Every level below the root takes one new label at most. -/
theorem next_passUp_le : {j : ℕ} → (t : Tree K V (d + j)) →
    (passUp maxKeys key new fresh j t).2 ≤ fresh + j
  | 0, _ => le_rfl
  | j + 1, n => by
    have ih := next_passUp_le ((Tree.kids (h := d + j) n).pick key)
    rw [passUp_succ, next_closeNode]
    split <;> exact (Nat.add_le_add_right ih _).trans (by omega)

/-- The root takes two. -/
theorem next_passUpRoot_le {j : ℕ} (n : Tree K V (d + (j + 1))) :
    (passUpRoot maxKeys key new fresh j n).2 ≤ fresh + j + 2 :=
  (next_closeRoot_le ..).trans (Nat.add_le_add_right (next_passUp_le _) 2)

/-- The labels `new` take the place of `old`: each is used once, and is an old one or one from `a`
on, and below `b`. -/
structure Relabels (old new : Multiset ℕ) (a b : ℕ) : Prop where
  nodup : new.Nodup
  mem : ∀ q ∈ new, q < b ∧ (q ∈ old ∨ a ≤ q)

variable {a b c : ℕ}

omit [LinearOrder K] in
/-- Further new labels. -/
theorem Relabels.add {old labels : Multiset ℕ} (h : Relabels old labels a b) (hab : a ≤ b)
    (hbc : b ≤ c) : Relabels old (labels + newLabels b c) a c := by
  refine ⟨Multiset.nodup_add.mpr ⟨h.nodup, nodup_newLabels b c, ?_⟩, fun q hq => ?_⟩
  · exact Multiset.disjoint_left.mpr fun hq hq' =>
      absurd (h.mem _ hq).1 (not_lt.mpr (mem_newLabels.mp hq').1)
  · rcases Multiset.mem_add.mp hq with hq | hq
    · exact ⟨(h.mem q hq).1.trans_le hbc, (h.mem q hq).2⟩
    · exact ⟨(mem_newLabels.mp hq).2, Or.inr (hab.trans (mem_newLabels.mp hq).1)⟩

/-- New labels in the place of those of a child. -/
theorem Relabels.place {h : ℕ} {n : Tree K V (h + 1)} {out : Kids K (Tree K V h)}
    (hout : Relabels (n.kids.pick key).labels (out.children.map Tree.labels).sum a b)
    (hn : n.labels.Nodup) (hlt : ∀ q ∈ n.labels, q < a) (hab : a ≤ b) :
    Relabels n.labels ({n.page} + ((n.kids.place key out).children.map Tree.labels).sum) a b := by
  -- the labels that stay
  obtain ⟨rest, hrest, hnew⟩ : ∃ rest, n.labels = (n.kids.pick key).labels + rest ∧
      {n.page} + ((n.kids.place key out).children.map Tree.labels).sum =
        (out.children.map Tree.labels).sum + rest := by
    refine ⟨{n.page} + ((n.kids.others key).map Tree.labels).sum, ?_, ?_⟩
    · rw [Tree.labels_perm (Kids.children_perm key n.kids)]
      abel
    · rw [((Kids.children_place_perm key n.kids out).map Tree.labels).sum_eq, List.map_append,
        List.sum_append]
      abel
  rw [hrest] at hn hlt
  obtain ⟨-, hndr, hdisj⟩ := Multiset.nodup_add.mp hn
  rw [hnew, hrest]
  refine ⟨Multiset.nodup_add.mpr ⟨hout.nodup, hndr, ?_⟩, fun q hq => ?_⟩
  · refine Multiset.disjoint_left.mpr fun hq hq' => ?_
    rcases (hout.mem _ hq).2 with hold | hge
    · exact Multiset.disjoint_left.mp hdisj hold hq'
    · exact absurd (hlt _ (Multiset.mem_add.mpr (Or.inr hq'))) (not_lt.mpr hge)
  · rcases Multiset.mem_add.mp hq with hq | hq
    · exact ⟨(hout.mem q hq).1, (hout.mem q hq).2.imp_left fun hold =>
        Multiset.mem_add.mpr (Or.inl hold)⟩
    · have hmem : q ∈ (n.kids.pick key).labels + rest := Multiset.mem_add.mpr (Or.inr hq)
      exact ⟨(hlt q hmem).trans_le hab, Or.inl hmem⟩

/-- The labels on the way up. -/
theorem labels_passUp (hfresh : a ≤ fresh) : {j : ℕ} → {t : Tree K V (d + j)} →
    Relabels ((t.level d j).pick key).labels (new.kids.children.map Tree.labels).sum a fresh →
    {lo : WithBot K} → {hi : WithTop K} → t.Ordered lo hi → t.labels.Nodup →
    (∀ q ∈ t.labels, q < a) →
    a ≤ (passUp maxKeys key new fresh j t).2 ∧
      Relabels t.labels ((passUp maxKeys key new fresh j t).1.kids.children.map Tree.labels).sum a
        (passUp maxKeys key new fresh j t).2
  | 0, _, hnew, _, _, _, _, _ => ⟨hfresh, hnew⟩
  | j + 1, n, hnew, _, _, ht, hnd, hlt => by
    have hmem := Kids.pick_mem_children key (Tree.kids (h := d + j) n)
    have hle := Tree.labels_le_of_mem hmem
    obtain ⟨lo', hi', hpick⟩ := Kids.Ordered.exists_of_mem ht hmem
    rw [Tree.pick_level_succ ht] at hnew
    obtain ⟨hab, hout⟩ := labels_passUp hfresh hnew hpick (Multiset.nodup_of_le hle hnd)
      fun q hq => hlt q (Multiset.mem_of_le hle hq)
    rw [passUp_succ]
    refine ⟨hab.trans (labels_closeNode ..).1, ?_⟩
    rw [(labels_closeNode ..).2]
    exact (hout.place hnd hlt hab).add hab (labels_closeNode ..).1

end Keeps

end BPlusTree
