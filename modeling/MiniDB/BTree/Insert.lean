import MiniDB.BTree.Node
import MiniDB.BPlusTree.Insert

/-!
# Insertion into B-trees

A new key goes into a leaf, that is, in place of the nothing below it, and comes between two
nothings.  A node that has become too large is cut at its middle key, which goes up; the left half
keeps the address, and the right half takes the next unused one.

* `close`, `insert`, `insertRoot`: the algorithm.
* `keys_insertRoot`: **one key comes to the others**.
* `ordered_insertRoot`, `sized_insertRoot`, `addrs_insertRoot`: what it keeps.
-/

namespace BTree

open BPlusTree

variable {K : Type}

/-- A node with its children; with more than `maxKeys` keys it is cut at the middle one. -/
def close (maxKeys addr fresh : ℕ) {h : ℕ} (k : Kids K (MTree K h)) : Ins K (MTree K (h + 1)) × ℕ :=
  if k.seps.length ≤ maxKeys then (.done (.node addr k), fresh)
  else
    match k.splitAt (k.seps.length / 2) with
    | some (l, p, r) => (.split (.node addr l) p (.node fresh r), fresh + 1)
    | none => (.done (.node addr k), fresh)

variable {maxKeys : ℕ}

/-- How closing a node can end. -/
theorem close_cases (maxKeys addr fresh : ℕ) {h : ℕ} (k : Kids K (MTree K h)) :
    (k.seps.length ≤ maxKeys ∧ close maxKeys addr fresh k = (.done (.node addr k), fresh)) ∨
      (maxKeys < k.seps.length ∧ ∃ l p r, k.splitAt (k.seps.length / 2) = some (l, p, r) ∧
        k = l.append p r ∧ l.seps.length = k.seps.length / 2 ∧
        close maxKeys addr fresh k = (.split (.node addr l) p (.node fresh r), fresh + 1)) := by
  unfold close
  by_cases hle : k.seps.length ≤ maxKeys
  · exact Or.inl ⟨hle, if_pos hle⟩
  · obtain ⟨l, p, r, hsplit⟩ := Kids.exists_splitAt (k := k) (m := k.seps.length / 2) (by omega)
    obtain ⟨hk, hlen⟩ := Kids.splitAt_eq_some hsplit
    refine Or.inr ⟨not_le.mp hle, l, p, r, hsplit, hk, hlen, ?_⟩
    rw [if_neg hle, hsplit]

section Algorithm

variable [LinearOrder K] (maxKeys : ℕ) (key : K)

/-- Insert a key that is not in the tree; the next unused address is the second result. -/
def insert : {h : ℕ} → MTree K h → ℕ → Ins K (MTree K h) × ℕ
  | 0, _, fresh => (.split .nil key .nil, fresh)
  | _ + 1, t, fresh =>
    let r := insert (t.kids.pick key) fresh
    close maxKeys t.addr r.2 (t.kids.place key r.1.kids)

/-- A root that was cut comes under a new one. -/
def grow {h : ℕ} : Ins K (MTree K (h + 1)) × ℕ → AnyTree K × ℕ
  | (.done t, fresh) => (⟨h, t⟩, fresh)
  | (.split l p r, fresh) => (⟨h + 1, .node fresh (.cons l p (.one r))⟩, fresh + 1)

/-- Insert a key that is not in the tree. -/
def insertRoot (t : AnyTree K) (fresh : ℕ) : AnyTree K × ℕ := grow (insert maxKeys key t.2 fresh)

/-- The children of a node behind an insertion below it, and the next unused address. -/
def insertBelow {h : ℕ} (t : MTree K (h + 1)) (fresh : ℕ) : Kids K (MTree K h) × ℕ :=
  let r := insert maxKeys key (t.kids.pick key) fresh
  (t.kids.place key r.1.kids, r.2)

theorem insert_succ {h : ℕ} (t : MTree K (h + 1)) (fresh : ℕ) :
    insert maxKeys key t fresh =
      close maxKeys t.addr (insertBelow maxKeys key t fresh).2
        (insertBelow maxKeys key t fresh).1 :=
  rfl

end Algorithm

/-! ## Keys -/

theorem keys_close (addr fresh : ℕ) {h : ℕ} (k : Kids K (MTree K h)) :
    inorder MTree.keys (close maxKeys addr fresh k).1.kids = inorder MTree.keys k := by
  rcases close_cases maxKeys addr fresh k with ⟨-, heq⟩ | ⟨-, l, p, r, -, hk, -, heq⟩
  · rw [heq]
    rfl
  · rw [heq, hk, inorder_append]
    rfl

theorem keys_grow {h : ℕ} (r : Ins K (MTree K (h + 1)) × ℕ) :
    (grow r).1.2.keys = inorder MTree.keys r.1.kids := by
  obtain ⟨_ | _, _⟩ := r <;> rfl

section Order

variable [LinearOrder K] {key : K} {lo : WithBot K} {hi : WithTop K}

/-- One key comes to the others, wherever that is. -/
theorem keys_insert : {h : ℕ} → (t : MTree K h) → (fresh : ℕ) →
    ∃ front back, t.keys = front ++ back ∧
      inorder MTree.keys (insert maxKeys key t fresh).1.kids = front ++ key :: back
  | 0, _, _ => ⟨[], [], rfl, rfl⟩
  | _ + 1, t, fresh => by
    obtain ⟨front, back, hold, hnew⟩ := keys_insert (t.kids.pick key) fresh
    obtain ⟨front', back', hold', hnew'⟩ := inorder_place (f := MTree.keys) key t.kids
    refine ⟨front' ++ front, back ++ back', ?_, ?_⟩
    · rw [MTree.keys_succ, hold', hold]
      simp
    · rw [insert, keys_close, hnew', hnew]
      simp

/-- **One key comes to the others.** -/
theorem keys_insertRoot (maxKeys : ℕ) (key : K) (t : AnyTree K) (fresh : ℕ) :
    ∃ front back, t.2.keys = front ++ back ∧
    (insertRoot maxKeys key t fresh).1.2.keys = front ++ key :: back := by
  rw [insertRoot, keys_grow]
  exact keys_insert t.2 fresh

/-! ## Order -/

theorem ordered_close (addr fresh : ℕ) {h : ℕ} {k : Kids K (MTree K h)}
    (hk : k.Ordered (fun lo hi c => c.Ordered lo hi) lo hi) :
    (close maxKeys addr fresh k).1.kids.Ordered (fun lo hi c => c.Ordered lo hi) lo hi := by
  rcases close_cases maxKeys addr fresh k with ⟨-, heq⟩ | ⟨-, l, p, r, -, rfl, -, heq⟩
  · rw [heq]
    exact hk
  · rw [heq]
    exact Kids.ordered_append.mp hk

/-- Insertion keeps the order. -/
theorem ordered_insert : {h : ℕ} → {t : MTree K h} → {lo : WithBot K} → {hi : WithTop K} →
    t.Ordered lo hi → lo < key → (key : WithTop K) < hi → key ∉ t.keys → (fresh : ℕ) →
    (insert maxKeys key t fresh).1.kids.Ordered (fun lo hi c => c.Ordered lo hi) lo hi
  | 0, _, _, _, _, hlo, hhi, _, _ => ⟨hlo, hhi, trivial, trivial⟩
  | _ + 1, t, lo, hi, ht, hlo, hhi, hkey, fresh => by
    have hnot : key ∉ t.kids.seps ∧ key ∉ (t.kids.pick key).keys := by
      rw [MTree.keys_succ, mem_inorder_pick (fun _ _ _ hc => MTree.Ordered.between_keys hc) ht,
        not_or] at hkey
      exact hkey
    refine ordered_close _ _ (Kids.Ordered.place_bounds ht ?_)
    exact ordered_insert (Kids.Ordered.pick_bounds ht key) (bounds_lt hlo hnot.1)
      (Kids.Ordered.bounds_around ht hlo.le hhi).2.2.1 hnot.2 fresh

theorem ordered_grow {h : ℕ} {r : Ins K (MTree K (h + 1)) × ℕ}
    (hr : r.1.kids.Ordered (fun lo hi c => c.Ordered lo hi) lo hi) :
    (grow r).1.2.Ordered lo hi := by
  obtain ⟨_ | _, _⟩ := r <;> exact hr

/-- **Insertion keeps the order of the whole tree.** -/
theorem ordered_insertRoot {t : AnyTree K} (ht : t.2.Ordered ⊥ ⊤) (hkey : key ∉ t.2.keys)
    (fresh : ℕ) : (insertRoot maxKeys key t fresh).1.2.Ordered ⊥ ⊤ :=
  ordered_grow (ordered_insert ht (WithBot.bot_lt_coe key) (WithTop.coe_lt_top key) hkey fresh)

/-! ## Sizes -/

variable {minKeys : ℕ}

/-- A node behind an insertion below it has one key more at most. -/
theorem length_seps_insertBelow (maxKeys : ℕ) (key : K) {h : ℕ} (t : MTree K (h + 1)) (fresh : ℕ) :
    t.kids.seps.length ≤ (insertBelow maxKeys key t fresh).1.seps.length ∧
      (insertBelow maxKeys key t fresh).1.seps.length ≤ t.kids.seps.length + 1 :=
  length_seps_place t.kids _

omit [LinearOrder K] in
theorem sized_close (addr fresh : ℕ) {h : ℕ} {k : Kids K (MTree K h)} (hmin : minKeys = maxKeys / 2)
    (hlow : minKeys ≤ k.seps.length) (hhigh : k.seps.length ≤ maxKeys + 1)
    (hk : ∀ c ∈ k.children, c.Sized minKeys maxKeys) :
    ∀ c ∈ (close maxKeys addr fresh k).1.kids.children, c.Sized minKeys maxKeys := by
  rcases close_cases maxKeys addr fresh k with ⟨hle, heq⟩ | ⟨hlt, l, p, r, -, rfl, hlen, heq⟩
  · rw [heq]
    intro c hc
    obtain rfl := List.mem_singleton.mp hc
    exact ⟨hlow, hle, hk⟩
  · rw [heq]
    rw [Kids.seps_append, List.length_append, List.length_cons] at hlt hhigh hlen
    rw [Kids.children_append] at hk
    intro c hc
    rcases List.mem_cons.mp hc with rfl | hc
    · refine ⟨?_, ?_, fun d hd => hk d (List.mem_append_left _ hd)⟩
      all_goals
        rw [MTree.kids_node]
        omega
    · obtain rfl := List.mem_singleton.mp hc
      refine ⟨?_, ?_, fun d hd => hk d (List.mem_append_right _ hd)⟩
      all_goals
        rw [MTree.kids_node]
        omega

/-- The children behind an insertion. -/
theorem sized_below {h : ℕ} {t : MTree K (h + 1)} {new : Kids K (MTree K h)}
    (ht : ∀ c ∈ t.kids.children, c.Sized minKeys maxKeys)
    (hnew : ∀ c ∈ new.children, c.Sized minKeys maxKeys) :
    ∀ c ∈ (t.kids.place key new).children, c.Sized minKeys maxKeys := by
  intro c hc
  rcases List.mem_append.mp ((Kids.children_place_perm key t.kids new).mem_iff.mp hc) with hc | hc
  · exact hnew c hc
  · exact ht c ((Kids.children_perm key t.kids).mem_iff.mpr (List.mem_cons_of_mem _ hc))

/-- Insertion keeps the sizes. -/
theorem sized_insert (hmin : minKeys = maxKeys / 2) : {h : ℕ} → {t : MTree K h} →
    t.Sized minKeys maxKeys → (fresh : ℕ) →
    ∀ c ∈ (insert maxKeys key t fresh).1.kids.children, c.Sized minKeys maxKeys
  | 0, _, _, _ => fun _ _ => trivial
  | _ + 1, t, ht, fresh => by
    obtain ⟨hge, hle⟩ := length_seps_insertBelow maxKeys key t fresh
    have hpick := ht.2.2 _ (Kids.pick_mem_children key t.kids)
    exact sized_close _ _ hmin (ht.1.trans hge) (hle.trans (Nat.succ_le_succ ht.2.1))
      (sized_below ht.2.2 (sized_insert hmin hpick fresh))

/-- **Insertion keeps the sizes of the whole tree.** -/
theorem sized_insertRoot (hmin : minKeys = maxKeys / 2) (hmax : 1 ≤ maxKeys) {t : AnyTree K}
    (ht : t.2.RootSized minKeys maxKeys) (fresh : ℕ) :
    (insertRoot maxKeys key t fresh).1.2.RootSized minKeys maxKeys := by
  obtain ⟨h, t⟩ := t
  obtain ⟨hge, hle⟩ := length_seps_insertBelow maxKeys key t fresh
  have hpick := ht.below _ (Kids.pick_mem_children key t.kids)
  have hbelow : ∀ c ∈ (insertBelow maxKeys key t fresh).1.children, c.Sized minKeys maxKeys :=
    sized_below ht.below (sized_insert hmin hpick fresh)
  have hhigh : (insertBelow maxKeys key t fresh).1.seps.length ≤ maxKeys + 1 :=
    hle.trans (Nat.succ_le_succ ht.le)
  rw [insertRoot, insert_succ]
  rcases close_cases maxKeys t.addr (insertBelow maxKeys key t fresh).2
    (insertBelow maxKeys key t fresh).1 with
    ⟨hfits, heq⟩ | ⟨hlt, l, p, r, -, hk, -, heq⟩
  · rw [heq]
    exact ⟨fun hh => (ht.pos hh).trans hge, hfits, hbelow⟩
  · have hboth := sized_close t.addr (insertBelow maxKeys key t fresh).2 hmin
      (by omega) hhigh hbelow
    rw [heq] at hboth ⊢
    exact ⟨fun _ => le_rfl, hmax, hboth⟩

end Order

/-! ## Addresses -/

/-- The addresses of two halves. -/
theorem addrs_halves (addr fresh : ℕ) {h : ℕ} (l r : Kids K (MTree K h)) (p : K) :
    (MTree.node addr l).addrs + (MTree.node fresh r).addrs =
      (MTree.node addr (l.append p r)).addrs + {fresh} := by
  simp only [MTree.addrs_succ, MTree.addr_node, MTree.kids_node, Kids.children_append,
    List.map_append, List.sum_append]
  abel

theorem addrs_close (maxKeys addr fresh : ℕ) {h : ℕ} (k : Kids K (MTree K h)) :
    fresh ≤ (close maxKeys addr fresh k).2 ∧
      ((close maxKeys addr fresh k).1.kids.children.map MTree.addrs).sum =
        (MTree.node addr k).addrs + newLabels fresh (close maxKeys addr fresh k).2 := by
  rcases close_cases maxKeys addr fresh k with ⟨-, heq⟩ | ⟨-, l, p, r, -, hk, -, heq⟩
  · rw [heq, newLabels_self]
    simp [Ins.kids]
  · rw [heq, newLabels_succ le_rfl, newLabels_self, zero_add, hk, ← addrs_halves]
    exact ⟨Nat.le_succ _, by simp [Ins.kids]⟩

section Order

variable [LinearOrder K] {key : K}

/-- What an insertion below a node adds to its addresses. -/
theorem addrs_place {h : ℕ} (t : MTree K (h + 1)) {new : Kids K (MTree K h)} {added : Multiset ℕ}
    (hsum : (new.children.map MTree.addrs).sum = (t.kids.pick key).addrs + added) :
    (MTree.node t.addr (t.kids.place key new)).addrs = t.addrs + added := by
  rw [MTree.addrs_perm (Kids.children_perm key t.kids), MTree.addrs_succ, MTree.addr_node,
    MTree.kids_node, ((Kids.children_place_perm key t.kids new).map MTree.addrs).sum_eq,
    List.map_append, List.sum_append, hsum]
  abel

/-- Insertion uses every address from `fresh` on once, and no other. -/
theorem addrs_insert (maxKeys : ℕ) (key : K) : {h : ℕ} → (t : MTree K h) → (fresh : ℕ) →
    fresh ≤ (insert maxKeys key t fresh).2 ∧
      ((insert maxKeys key t fresh).1.kids.children.map MTree.addrs).sum =
        t.addrs + newLabels fresh (insert maxKeys key t fresh).2
  | 0, _, fresh => ⟨le_rfl, by
    rw [insert, newLabels_self]
    rfl⟩
  | _ + 1, t, fresh => by
    obtain ⟨hle, hsum⟩ := addrs_insert maxKeys key (t.kids.pick key) fresh
    obtain ⟨hle', hsum'⟩ := addrs_close maxKeys t.addr
      (insertBelow maxKeys key t fresh).2 (insertBelow maxKeys key t fresh).1
    rw [insert_succ]
    refine ⟨hle.trans hle', ?_⟩
    rw [hsum', ← newLabels_add hle hle', ← add_assoc, ← addrs_place t hsum]
    rfl

/-- The addresses of a node behind an insertion below it. -/
theorem addrs_insertBelow (maxKeys : ℕ) (key : K) {h : ℕ} (t : MTree K (h + 1)) (fresh : ℕ) :
    fresh ≤ (insertBelow maxKeys key t fresh).2 ∧
      (MTree.node t.addr (insertBelow maxKeys key t fresh).1).addrs =
        t.addrs + newLabels fresh (insertBelow maxKeys key t fresh).2 := by
  obtain ⟨hle, hsum⟩ := addrs_insert maxKeys key (t.kids.pick key) fresh
  exact ⟨hle, addrs_place t hsum⟩

/-- **Insertion uses new addresses** for what it adds. -/
theorem addrs_insertRoot (maxKeys : ℕ) (key : K) (t : AnyTree K) (fresh : ℕ) :
    fresh ≤ (insertRoot maxKeys key t fresh).2 ∧ (insertRoot maxKeys key t fresh).1.2.addrs =
      t.2.addrs + newLabels fresh (insertRoot maxKeys key t fresh).2 := by
  obtain ⟨hle, hsum⟩ := addrs_insert maxKeys key t.2 fresh
  rw [insertRoot]
  generalize insert maxKeys key t.2 fresh = r at *
  obtain ⟨_ | _, next⟩ := r
  · refine ⟨hle, ?_⟩
    simpa [Ins.kids, grow] using hsum
  · refine ⟨hle.trans (Nat.le_succ next), ?_⟩
    simp only [Ins.kids, Kids.children_cons, Kids.children_one, List.map_cons, List.map_nil,
      List.sum_cons, List.sum_nil, add_zero] at hsum
    simp only [grow, MTree.addrs_succ, MTree.addr_node, MTree.kids_node, Kids.children_cons,
      Kids.children_one, List.map_cons, List.map_nil, List.sum_cons, List.sum_nil, add_zero]
    simp only [MTree.addrs_succ] at hsum
    rw [hsum, newLabels_succ hle]
    abel

end Order

end BTree
