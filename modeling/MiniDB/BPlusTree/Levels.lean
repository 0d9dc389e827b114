import MiniDB.BPlusTree.Overflow

/-!
# The levels of a B+ tree

The nodes of one level stand side by side, and between each two neighbours lies exactly one
separator, held by the node in which their paths part.

* `Kids.bind`: a sequence of sequences read as one.
* `Kids.ranges`: the children with their ranges.
* `Kids.sequence`: the children and separators as they stand.
* `Tree.level`, `Tree.above`, `Tree.levelPages`: the nodes of one level, those above them, and the
  pages of the level, with the separators between them.
* `Tree.pick_levelPages_zero`, `Kids.filter_ranges`: the descent for a key passes the lowest level
  at the one leaf whose range holds the key.
-/

namespace BPlusTree

variable {K α β : Type}

namespace Kids

theorem append_assoc (l m r : Kids K α) (s s' : K) :
    (l.append s m).append s' r = l.append s (m.append s' r) := by
  induction l with
  | one c => rfl
  | cons c s'' l ih => rw [append, append, ih, append]

/-- The sequence of the children's own sequences. -/
def bind (f : α → Kids K β) : Kids K α → Kids K β
  | one c => f c
  | cons c s t => (f c).append s (t.bind f)

theorem bind_one (f : α → Kids K β) (c : α) : (one c : Kids K α).bind f = f c := rfl

theorem bind_cons (f : α → Kids K β) (c : α) (s : K) (t : Kids K α) :
    (cons c s t).bind f = (f c).append s (t.bind f) := rfl

theorem bind_append (f : α → Kids K β) (l : Kids K α) (s : K) (t : Kids K α) :
    (l.append s t).bind f = (l.bind f).append s (t.bind f) := by
  induction l with
  | one c => rfl
  | cons c s' l ih => rw [append, bind_cons, ih, bind_cons, append_assoc]

theorem children_bind (f : α → Kids K β) (k : Kids K α) :
    (k.bind f).children = k.children.flatMap fun c => (f c).children := by
  induction k with
  | one c => simp [bind]
  | cons c s t ih => rw [bind_cons, children_append, ih, children_cons, List.flatMap_cons]

theorem bind_one_right (k : Kids K α) : k.bind one = k := by
  induction k with
  | one c => rfl
  | cons c s t ih => rw [bind_cons, ih, append]

theorem bind_assoc {γ : Type} (f : α → Kids K β) (g : β → Kids K γ) (k : Kids K α) :
    (k.bind f).bind g = k.bind fun c => (f c).bind g := by
  induction k with
  | one c => rfl
  | cons c s t ih => rw [bind_cons, bind_append, ih, bind_cons]

theorem map_eq_bind (f : α → β) (k : Kids K α) : k.map f = k.bind fun c => one (f c) := by
  induction k with
  | one c => rfl
  | cons c s t ih => rw [map, ih, bind_cons, append]

/-- The children and the separators as they stand, from left to right. -/
def sequence : Kids K α → List (α ⊕ K)
  | one c => [.inl c]
  | cons c s t => .inl c :: .inr s :: t.sequence

theorem sequence_append (l : Kids K α) (s : K) (t : Kids K α) :
    (l.append s t).sequence = l.sequence ++ .inr s :: t.sequence := by
  induction l with
  | one c => rfl
  | cons c s' l ih => rw [append, sequence, ih, sequence, List.cons_append, List.cons_append]

/-- The children with the bounds next to them. -/
def ranges : WithBot K → WithTop K → Kids K α → List (WithBot K × WithTop K × α)
  | lo, hi, one c => [(lo, hi, c)]
  | lo, hi, cons c s t => (lo, (s : WithTop K), c) :: t.ranges s hi

theorem map_ranges (lo : WithBot K) (hi : WithTop K) (k : Kids K α) :
    ((k.ranges lo hi).map fun r => r.2.2) = k.children := by
  induction k generalizing lo with
  | one c => rfl
  | cons c s t ih => rw [ranges, List.map_cons, ih, children_cons]

section Order

variable [LinearOrder K] {key : K} {P : WithBot K → WithTop K → α → Prop} {lo : WithBot K}
  {hi : WithTop K}

/-- A sequence of ordered sequences is ordered. -/
theorem Ordered.bind {Q : WithBot K → WithTop K → β → Prop} {f : α → Kids K β} {k : Kids K α}
    (hf : ∀ lo hi c, P lo hi c → (f c).Ordered Q lo hi) (h : k.Ordered P lo hi) :
    (k.bind f).Ordered Q lo hi := by
  induction k generalizing lo with
  | one c => exact hf lo hi c h
  | cons c s t ih =>
    obtain ⟨h1, h2, h3, h4⟩ := h
    exact ordered_append.mpr ⟨h1, h2, hf _ _ c h3, ih h4⟩

theorem pick_append_of_lt {l t : Kids K α} {s : K} (h : key < s) :
    (l.append s t).pick key = l.pick key := by
  induction l with
  | one c => exact if_pos h
  | cons c s' l ih => rw [append, pick, ih, pick]

theorem pick_append_of_le {l t : Kids K α} {s : K} (hl : ∀ s' ∈ l.seps, s' ≤ key) (h : s ≤ key) :
    (l.append s t).pick key = t.pick key := by
  induction l with
  | one c => rw [append, pick, if_neg (not_lt.mpr h)]
  | cons c s' l ih =>
    have hs' : s' ≤ key := hl s' List.mem_cons_self
    rw [append, pick, if_neg (not_lt.mpr hs'), ih fun x hx => hl x (List.mem_cons_of_mem _ hx)]

theorem place_append_of_lt {l t new : Kids K α} {s : K} (h : key < s) :
    (l.append s t).place key new = (l.place key new).append s t := by
  induction l with
  | one c => exact if_pos h
  | cons c s' l ih =>
    rw [append, place, place]
    split
    · rw [append_assoc]
    · rw [ih, append]

theorem place_append_of_le {l t new : Kids K α} {s : K} (hl : ∀ s' ∈ l.seps, s' ≤ key)
    (h : s ≤ key) : (l.append s t).place key new = l.append s (t.place key new) := by
  induction l with
  | one c => rw [append, place, if_neg (not_lt.mpr h), append]
  | cons c s' l ih =>
    have hs' : s' ≤ key := hl s' List.mem_cons_self
    rw [append, place, if_neg (not_lt.mpr hs'), ih fun x hx => hl x (List.mem_cons_of_mem _ hx),
      append]

/-- The separators of a child are below every key that is not below its upper bound. -/
theorem Ordered.seps_le {k : Kids K α} {s : K} (h : k.Ordered P lo s) (hs : s ≤ key) :
    ∀ s' ∈ k.seps, s' ≤ key := fun _ hs' =>
  (WithTop.coe_lt_coe.mp (h.mem_seps hs').2).le.trans hs

/-- Descending in a sequence of sequences is descending twice. -/
theorem pick_bind {Q : WithBot K → WithTop K → β → Prop} {f : α → Kids K β} {k : Kids K α}
    (hf : ∀ lo hi c, P lo hi c → (f c).Ordered Q lo hi) (h : k.Ordered P lo hi) :
    (k.bind f).pick key = (f (k.pick key)).pick key := by
  induction k generalizing lo with
  | one c => rfl
  | cons c s t ih =>
    obtain ⟨-, -, h3, h4⟩ := h
    rw [bind_cons, pick]
    split
    · next hlt => rw [pick_append_of_lt hlt]
    · next hge =>
      have hle : s ≤ key := not_lt.mp hge
      rw [pick_append_of_le ((hf _ _ c h3).seps_le hle) hle, ih h4]

/-- Putting in place in a sequence of sequences: what replaces the child reads as its own sequence
with the new one in place. -/
theorem place_bind {Q : WithBot K → WithTop K → β → Prop} {f : α → Kids K β} {k new : Kids K α}
    {new' : Kids K β} (hf : ∀ lo hi c, P lo hi c → (f c).Ordered Q lo hi) (h : k.Ordered P lo hi)
    (hnew : new.bind f = (f (k.pick key)).place key new') :
    (k.place key new).bind f = (k.bind f).place key new' := by
  induction k generalizing lo with
  | one c => exact hnew
  | cons c s t ih =>
    obtain ⟨-, -, h3, h4⟩ := h
    rw [place, bind_cons]
    rw [pick] at hnew
    split
    · next hlt =>
      rw [if_pos hlt] at hnew
      rw [bind_append, hnew, place_append_of_lt hlt]
    · next hge =>
      have hle : s ≤ key := not_lt.mp hge
      rw [if_neg hge] at hnew
      rw [bind_cons, ih h4 hnew, place_append_of_le ((hf _ _ c h3).seps_le hle) hle]

/-- Putting in place replaces the picked child and nothing else. -/
theorem exists_sequence_place (key : K) (k : Kids K α) :
    ∃ xs ys, k.sequence = xs ++ .inl (k.pick key) :: ys ∧
      ∀ new, (k.place key new).sequence = xs ++ new.sequence ++ ys := by
  induction k with
  | one c => exact ⟨[], [], rfl, fun new => by rw [place, List.nil_append, List.append_nil]⟩
  | cons c s t ih =>
    obtain ⟨xs, ys, heq, hplace⟩ := ih
    by_cases hlt : key < s
    · refine ⟨[], .inr s :: t.sequence, ?_, fun new => ?_⟩
      · rw [pick, if_pos hlt]
        rfl
      · rw [place, if_pos hlt, sequence_append, List.nil_append]
    · refine ⟨.inl c :: .inr s :: xs, ys, ?_, fun new => ?_⟩
      · rw [pick, if_neg hlt, sequence, heq]
        rfl
      · rw [place, if_neg hlt, sequence, hplace]
        rfl

theorem bounds_append_of_lt {l t : Kids K α} {s : K} (h : key < s) :
    (l.append s t).bounds key lo hi = l.bounds key lo s := by
  induction l generalizing lo with
  | one c => exact if_pos h
  | cons c s' l ih => rw [append, bounds, ih, bounds]

theorem bounds_append_of_le {l t : Kids K α} {s : K} (hl : ∀ s' ∈ l.seps, s' ≤ key)
    (h : s ≤ key) : (l.append s t).bounds key lo hi = t.bounds key s hi := by
  induction l generalizing lo with
  | one c => rw [append, bounds, if_neg (not_lt.mpr h)]
  | cons c s' l ih =>
    have hs' : s' ≤ key := hl s' List.mem_cons_self
    rw [append, bounds, if_neg (not_lt.mpr hs'), ih fun x hx => hl x (List.mem_cons_of_mem _ hx)]

/-- The range of a child in a sequence of sequences. -/
theorem bounds_bind {Q : WithBot K → WithTop K → β → Prop} {f : α → Kids K β} {k : Kids K α}
    (hf : ∀ lo hi c, P lo hi c → (f c).Ordered Q lo hi) (h : k.Ordered P lo hi) :
    (k.bind f).bounds key lo hi =
      (f (k.pick key)).bounds key (k.bounds key lo hi).1 (k.bounds key lo hi).2 := by
  induction k generalizing lo with
  | one c => rfl
  | cons c s t ih =>
    obtain ⟨-, -, h3, h4⟩ := h
    rw [bind_cons, pick, bounds]
    split
    · next hlt => rw [bounds_append_of_lt hlt]
    · next hge =>
      have hle : s ≤ key := not_lt.mp hge
      rw [bounds_append_of_le ((hf _ _ c h3).seps_le hle) hle, ih h4]

/-- The range holds the key. -/
def Holds (key : K) (r : WithBot K × WithTop K × α) : Prop := r.1 ≤ key ∧ (key : WithTop K) < r.2.1

instance (key : K) (r : WithBot K × WithTop K × α) : Decidable (Holds key r) :=
  inferInstanceAs (Decidable (_ ∧ _))

/-- Exactly one child has a range that holds the key: the one that is picked. -/
theorem filter_ranges {k : Kids K α} (h : k.Ordered P lo hi) (key : K) :
    (k.ranges lo hi).filter (fun r => Holds key r) =
      if lo ≤ key ∧ (key : WithTop K) < hi then
        [((k.bounds key lo hi).1, (k.bounds key lo hi).2, k.pick key)] else [] := by
  induction k generalizing lo with
  | one c =>
    by_cases hin : Holds key (lo, hi, c)
    · rw [ranges, List.filter_cons, if_pos (decide_eq_true hin)]
      exact (if_pos hin).symm
    · rw [ranges, List.filter_cons, if_neg fun h => hin (of_decide_eq_true h)]
      exact (if_neg hin).symm
  | cons c s t ih =>
    obtain ⟨h1, h2, -, h4⟩ := h
    have hrest := ih h4
    rw [ranges, pick, bounds, List.filter_cons]
    by_cases hlt : key < s
    · -- the key is in front of the separator
      have hout : ¬ ((s : WithBot K) ≤ key ∧ (key : WithTop K) < hi) := fun hin =>
        absurd (WithBot.coe_le_coe.mp hin.1) (not_le.mpr hlt)
      have hhi : (key : WithTop K) < hi := (WithTop.coe_lt_coe.mpr hlt).trans h2
      rw [if_neg hout] at hrest
      rw [if_pos hlt, if_pos hlt]
      by_cases hlo : lo ≤ key
      · have hin : Holds key (lo, (s : WithTop K), c) := ⟨hlo, WithTop.coe_lt_coe.mpr hlt⟩
        rw [if_pos (decide_eq_true hin), hrest, if_pos ⟨hlo, hhi⟩]
      · have hnot : ¬ Holds key (lo, (s : WithTop K), c) := fun hin => hlo hin.1
        rw [if_neg fun h => hnot (of_decide_eq_true h), hrest, if_neg fun hin => hlo hin.1]
    · -- the key is behind it
      have hle : s ≤ key := not_lt.mp hlt
      have hlo : lo ≤ key := h1.le.trans (WithBot.coe_le_coe.mpr hle)
      have hnot : ¬ Holds key (lo, (s : WithTop K), c) := fun hin =>
        hlt (WithTop.coe_lt_coe.mp hin.2)
      rw [if_neg fun h => hnot (of_decide_eq_true h), hrest, if_neg hlt, if_neg hlt]
      simp only [WithBot.coe_le_coe, hle, hlo, true_and]

/-- The range of the picked child is among the ranges. -/
theorem bounds_mem_ranges (key : K) (lo : WithBot K) (hi : WithTop K) (k : Kids K α) :
    ((k.bounds key lo hi).1, (k.bounds key lo hi).2, k.pick key) ∈ k.ranges lo hi := by
  induction k generalizing lo with
  | one c => exact List.mem_singleton_self _
  | cons c s t ih =>
    rw [bounds, pick, ranges]
    split
    · exact List.mem_cons_self
    · exact List.mem_cons_of_mem _ (ih s)

/-- A child whose range holds the key is the one that is picked. -/
theorem eq_of_mem_ranges {k : Kids K α} (h : k.Ordered P lo hi) {lo' : WithBot K} {hi' : WithTop K}
    {c : α} (hmem : (lo', hi', c) ∈ k.ranges lo hi) (hlo : lo' ≤ key)
    (hhi : (key : WithTop K) < hi') :
    k.pick key = c ∧ k.bounds key lo hi = (lo', hi') := by
  have hin : (lo', hi', c) ∈ (k.ranges lo hi).filter fun r => Holds key r :=
    List.mem_filter.mpr ⟨hmem, decide_eq_true ⟨hlo, hhi⟩⟩
  rw [filter_ranges h key] at hin
  split at hin
  · have heq := List.mem_singleton.mp hin
    simp only [Prod.mk.injEq] at heq
    exact ⟨heq.2.2.symm, Prod.ext heq.1.symm heq.2.1.symm⟩
  · cases hin

end Order

end Kids

/-! ## One level of a tree -/

variable {V : Type}

namespace Tree

/-- The nodes of height `d`, with the separators between them. -/
def level (d : ℕ) : (j : ℕ) → Tree K V (d + j) → Kids K (Tree K V d)
  | 0, t => .one t
  | j + 1, n => (kids (h := d + j) n).bind (level d j)

/-- The nodes one level above those of height `d`. -/
def above (d : ℕ) : (j : ℕ) → Tree K V (d + (j + 1)) → Kids K (Tree K V (d + 1))
  | 0, n => .one n
  | j + 1, n => (kids (h := d + (j + 1)) n).bind (above d j)

/-- The pages of the nodes of height `d`, with the separators between them; a tree that is not that
high counts as one node. -/
def levelPages (d : ℕ) : {h : ℕ} → Tree K V h → Kids K ℕ
  | 0, l => .one l.page
  | h + 1, n => if h + 1 ≤ d then .one n.page else n.kids.bind (levelPages d)

theorem levelPages_of_le {d : ℕ} : {h : ℕ} → {t : Tree K V h} → h ≤ d →
    t.levelPages d = .one t.page
  | 0, _, _ => rfl
  | _ + 1, _, hd => if_pos hd

theorem levelPages_succ {d h : ℕ} {n : Tree K V (h + 1)} (hd : d ≤ h) :
    n.levelPages d = n.kids.bind (levelPages d) := if_neg (by omega)

/-- The lowest level is that of the leaves. -/
theorem children_levelPages_zero : {h : ℕ} → (t : Tree K V h) →
    (t.levelPages 0).children = t.leaves.map Leaf.page
  | 0, _ => rfl
  | h + 1, n => by
    have ih : (fun c : Tree K V h => (c.levelPages 0).children) = fun c => c.leaves.map Leaf.page :=
      funext children_levelPages_zero
    rw [levelPages_succ (Nat.zero_le h), Kids.children_bind, ih, leaves_succ, List.map_flatMap]

theorem level_succ {d j : ℕ} (n : Tree K V (d + (j + 1))) :
    n.level d (j + 1) = (kids (h := d + j) n).bind (level d j) := rfl

theorem above_succ {d j : ℕ} (n : Tree K V (d + (j + 1 + 1))) :
    n.above d (j + 1) = (kids (h := d + (j + 1)) n).bind (above d j) := rfl

/-- The pages of a level are those of its nodes. -/
theorem levelPages_eq_map {d : ℕ} : {j : ℕ} → (t : Tree K V (d + j)) →
    t.levelPages d = (t.level d j).map page
  | 0, _ => levelPages_of_le le_rfl
  | j + 1, n => by
    rw [levelPages_succ (h := d + j) (Nat.le_add_right d j), level_succ, Kids.map_eq_bind,
      Kids.bind_assoc]
    congr 1
    funext c
    rw [levelPages_eq_map, Kids.map_eq_bind]

/-- The labels below a node of a level are labels of the tree. -/
theorem labels_le_of_mem_level {d : ℕ} {c : Tree K V d} : {j : ℕ} → {t : Tree K V (d + j)} →
    c ∈ (t.level d j).children → c.labels ≤ t.labels
  | 0, t, hc => by
    rw [List.mem_singleton.mp hc]
  | j + 1, n, hc => by
    rw [level_succ, Kids.children_bind] at hc
    obtain ⟨b, hb, hcb⟩ := List.mem_flatMap.mp hc
    exact (labels_le_of_mem_level hcb).trans (labels_le_of_mem hb)

/-- The leaves are the lowest level. -/
theorem leaves_eq_level : {j : ℕ} → (t : Tree K V (0 + j)) →
    t.leaves = (t.level 0 j).children.map fun c => ⟨c.page, c.cells⟩
  | 0, _ => rfl
  | j + 1, n => by
    rw [level_succ, Kids.children_bind, List.map_flatMap, ← funext leaves_eq_level]
    rfl

section Order

variable [LinearOrder K] {key : K} {lo : WithBot K} {hi : WithTop K}

/-- The nodes of a level are in order. -/
theorem Ordered.level {d : ℕ} : {j : ℕ} → {t : Tree K V (d + j)} → {lo : WithBot K} →
    {hi : WithTop K} → t.Ordered lo hi →
    (t.level d j).Ordered (fun lo hi c => c.Ordered lo hi) lo hi
  | 0, _, _, _, ht => ht
  | _ + 1, _, _, _, ht => Kids.Ordered.bind (fun _ _ _ hc => Ordered.level hc) ht

theorem pick_level_succ {d j : ℕ} {n : Tree K V (d + (j + 1))} (ht : n.Ordered lo hi) :
    (n.level d (j + 1)).pick key = (((kids (h := d + j) n).pick key).level d j).pick key :=
  Kids.pick_bind (fun _ _ _ hc => Ordered.level hc) ht

theorem bounds_level_succ {d j : ℕ} {n : Tree K V (d + (j + 1))} (ht : n.Ordered lo hi) :
    (n.level d (j + 1)).bounds key lo hi =
      (((kids (h := d + j) n).pick key).level d j).bounds key
        ((kids (h := d + j) n).bounds key lo hi).1 ((kids (h := d + j) n).bounds key lo hi).2 :=
  Kids.bounds_bind (fun _ _ _ hc => Ordered.level hc) ht

/-- The separators of a level ascend inside the range of the tree. -/
theorem Ordered.levelPages {d : ℕ} : {h : ℕ} → {t : Tree K V h} → {lo : WithBot K} →
    {hi : WithTop K} → t.Ordered lo hi → (t.levelPages d).Ordered (fun _ _ _ => True) lo hi
  | 0, _, _, _, _ => trivial
  | h + 1, n, _, _, ht => by
    rcases Nat.lt_or_ge h d with hlt | hge
    · rw [levelPages_of_le hlt]
      trivial
    · rw [levelPages_succ hge]
      exact Kids.Ordered.bind (fun _ _ _ hc => Ordered.levelPages hc) ht

/-- The descent for a key passes a level at the node whose range holds the key. -/
theorem pick_levelPages_succ {d h : ℕ} {n : Tree K V (h + 1)} (hd : d ≤ h)
    (ht : n.Ordered lo hi) :
    (n.levelPages d).pick key = ((n.kids.pick key).levelPages d).pick key := by
  rw [levelPages_succ hd]
  exact Kids.pick_bind (fun _ _ _ hc => Ordered.levelPages hc) ht

/-- The leaf whose range holds the key is the one the descent ends at. -/
theorem pick_levelPages_zero : {h : ℕ} → {t : Tree K V h} → {lo : WithBot K} → {hi : WithTop K} →
    t.Ordered lo hi → (t.levelPages 0).pick key = (t.leafFor key).page
  | 0, _, _, _, _ => rfl
  | h + 1, n, _, _, ht => by
    obtain ⟨lo', hi', hpick⟩ := Kids.Ordered.exists_of_mem ht (Kids.pick_mem_children key n.kids)
    rw [pick_levelPages_succ (Nat.zero_le h) ht, pick_levelPages_zero hpick]
    rfl

end Order

end Tree

end BPlusTree
