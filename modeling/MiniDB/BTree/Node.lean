import MiniDB.BPlusTree.Kids
import Mathlib.Data.Multiset.OrderedMonoid
import Mathlib.Algebra.BigOperators.Group.List.Basic

/-!
# B-trees

In a B-tree every node holds keys, not only its leaves.  A node of height `h + 1` is a sequence of
children of height `h` with its keys as separators; below the leaves there is nothing, which is a
tree of height `0`.

* `MTree.keys`: the keys in their order; `MTree.addrs`: the addresses of the nodes; `MTree.bare`:
  the tree without them.
* `MTree.Ordered`, `MTree.Sized`: the keys ascend, and no node is too small or too large.
* `MTree.Ordered.between_keys`: **the keys of an ordered tree ascend**.
* `MTree.contains_iff`: **the descent for a key finds it when it is there**.
* `MTree.RootSized.height_le`: **a tree with many levels has many keys**.
-/

namespace BTree

open BPlusTree

variable {K α : Type}

/-! ## The keys of a sequence of children -/

/-- What `f` gives for the children, with the separators in between. -/
def inorder (f : α → List K) : Kids K α → List K
  | .one c => f c
  | .cons c s t => f c ++ s :: inorder f t

variable {f : α → List K} {k new : Kids K α} {key x : K}

theorem inorder_append (l : Kids K α) (p : K) (t : Kids K α) :
    inorder f (l.append p t) = inorder f l ++ p :: inorder f t := by
  induction l with
  | one c => rfl
  | cons c s l ih => rw [Kids.append, inorder, inorder, ih, List.append_assoc, List.cons_append]

theorem length_inorder (k : Kids K α) :
    (inorder f k).length = k.seps.length + (k.children.map fun c => (f c).length).sum := by
  induction k with
  | one c => simp [inorder]
  | cons c s t ih =>
    simp only [inorder, List.length_append, List.length_cons, ih, Kids.seps_cons,
      Kids.children_cons, List.map_cons, List.sum_cons]
    omega

/-- The separators, and what `f` gives for the children. -/
theorem perm_inorder (k : Kids K α) : (inorder f k).Perm (k.seps ++ k.children.flatMap f) := by
  induction k with
  | one c => simp [inorder]
  | cons c s t ih =>
    rw [inorder, Kids.seps_cons, Kids.children_cons, List.flatMap_cons, List.cons_append]
    refine List.perm_middle.trans (List.Perm.cons s ?_)
    exact (ih.append_left (f c)).trans (List.perm_append_comm_assoc ..)

theorem seps_sublist_inorder (k : Kids K α) : k.seps.Sublist (inorder f k) := by
  induction k with
  | one c => exact List.nil_sublist _
  | cons c s t ih => exact (ih.cons_cons s).trans (List.sublist_append_right _ _)

theorem sublist_inorder (k : Kids K α) {c : α} (hc : c ∈ k.children) :
    (f c).Sublist (inorder f k) := by
  induction k with
  | one d => rw [List.mem_singleton.mp hc, inorder]
  | cons d s t ih =>
    rw [inorder]
    rcases List.mem_cons.mp hc with rfl | hc
    · exact List.sublist_append_left _ _
    · exact ((ih hc).trans (List.sublist_cons_self _ _)).trans (List.sublist_append_right _ _)

section Order

variable [LinearOrder K] {P : WithBot K → WithTop K → α → Prop} {lo : WithBot K} {hi : WithTop K}

/-- What is put in place of the picked child takes the place of its keys. -/
theorem inorder_place (key : K) (k : Kids K α) : ∃ front back,
    inorder f k = front ++ f (k.pick key) ++ back ∧
      ∀ new, inorder f (k.place key new) = front ++ inorder f new ++ back := by
  induction k with
  | one c => exact ⟨[], [], by simp [inorder, Kids.pick], fun new => by simp [Kids.place]⟩
  | cons c s t ih =>
    by_cases hlt : key < s
    · refine ⟨[], s :: inorder f t, ?_, fun new => ?_⟩
      · rw [inorder, Kids.pick, if_pos hlt, List.nil_append]
      · rw [Kids.place, if_pos hlt, inorder_append, List.nil_append]
    · obtain ⟨front, back, hold, hnew⟩ := ih
      refine ⟨f c ++ s :: front, back, ?_, fun new => ?_⟩
      · rw [inorder, Kids.pick, if_neg hlt, hold]
        simp
      · rw [Kids.place, if_neg hlt, inorder, hnew]
        simp

/-- The range of the picked child is strictly above its lower bound, when the key is no
separator. -/
theorem bounds_lt (hlo : lo < key) (hkey : key ∉ k.seps) : (k.bounds key lo hi).1 < key := by
  induction k generalizing lo with
  | one c => exact hlo
  | cons c s t ih =>
    rw [Kids.seps_cons, List.mem_cons, not_or] at hkey
    rw [Kids.bounds]
    split
    · exact hlo
    · next hge =>
      refine ih (WithBot.coe_lt_coe.mpr ?_) hkey.2
      exact lt_of_le_of_ne (not_lt.mp hge) (Ne.symm hkey.1)

/-- Two children in place of the picked one: one separator more. -/
theorem seps_place_two (key p : K) (k : Kids K α) (l r : α) :
    (k.place key (.cons l p (.one r))).seps = k.seps.insertIdx (k.index key) p := by
  induction k with
  | one c => rfl
  | cons c s t ih =>
    rw [Kids.place, Kids.index]
    split
    · rfl
    · rw [Kids.seps_cons, Kids.seps_cons, List.insertIdx_succ_cons, ih]

/-- Two children in place of the picked one, of which the first looks the same. -/
theorem children_place_two {β : Type} {g : α → β} {key : K} {k : Kids K α} {l : α}
    (h : g l = g (k.pick key)) (p : K) (r : α) :
    (k.place key (.cons l p (.one r))).children.map g =
      (k.children.map g).insertIdx (k.index key + 1) (g r) := by
  induction k with
  | one c =>
    rw [Kids.pick] at h
    simp [Kids.place, Kids.index, h]
  | cons c s t ih =>
    rw [Kids.place, Kids.index]
    rw [Kids.pick] at h
    split
    · next hlt =>
      rw [if_pos hlt] at h
      simp [h]
    · next hge =>
      rw [if_neg hge] at h
      rw [Kids.children_cons, Kids.children_cons, List.map_cons, List.map_cons,
        List.insertIdx_succ_cons, ih h]

/-- Keys that ascend between two bounds. -/
def Between (lo : WithBot K) (hi : WithTop K) (keys : List K) : Prop :=
  keys.Pairwise (· < ·) ∧ ∀ x ∈ keys, lo < x ∧ (x : WithTop K) < hi

/-- **The keys of ordered children** ascend. -/
theorem between_inorder (hP : ∀ lo hi c, P lo hi c → Between lo hi (f c))
    (h : k.Ordered P lo hi) : Between lo hi (inorder f k) := by
  induction k generalizing lo with
  | one c => exact hP lo hi c h
  | cons c s t ih =>
    obtain ⟨hlo, hhi, hc, ht⟩ := h
    obtain ⟨hasc, hin⟩ := hP lo s c hc
    obtain ⟨hasc', hin'⟩ := ih ht
    refine ⟨List.pairwise_append.mpr ⟨hasc, List.pairwise_cons.mpr ⟨fun x hx => ?_, hasc'⟩, ?_⟩, ?_⟩
    · exact WithBot.coe_lt_coe.mp (hin' x hx).1
    · intro x hx y hy
      have hxs : x < s := WithTop.coe_lt_coe.mp (hin x hx).2
      rcases List.mem_cons.mp hy with rfl | hy
      · exact hxs
      · exact hxs.trans (WithBot.coe_lt_coe.mp (hin' y hy).1)
    · intro x hx
      rcases List.mem_append.mp hx with hx | hx
      · exact ⟨(hin x hx).1, (hin x hx).2.trans hhi⟩
      · rcases List.mem_cons.mp hx with rfl | hx
        · exact ⟨hlo, hhi⟩
        · exact ⟨hlo.trans (hin' x hx).1, (hin' x hx).2⟩

/-- **A key is a separator, or among the keys of the picked child**, or not there. -/
theorem mem_inorder_pick (hP : ∀ lo hi c, P lo hi c → Between lo hi (f c))
    (h : k.Ordered P lo hi) : key ∈ inorder f k ↔ key ∈ k.seps ∨ key ∈ f (k.pick key) := by
  induction k generalizing lo with
  | one c => simp [inorder, Kids.pick]
  | cons c s t ih =>
    obtain ⟨hlo, hhi, hc, ht⟩ := h
    rw [inorder, List.mem_append, List.mem_cons, ih ht, Kids.seps_cons, List.mem_cons, Kids.pick]
    have hleft : key ∈ f c → key < s := fun hmem => WithTop.coe_lt_coe.mp ((hP _ _ _ hc).2 _ hmem).2
    have hright : key ∈ t.seps ∨ key ∈ f (t.pick key) → s < key := fun hmem =>
      WithBot.coe_lt_coe.mp ((between_inorder hP ht).2 key ((ih ht).mpr hmem)).1
    split
    · next hlt =>
      constructor
      · rintro (hmem | hmem | hmem)
        · exact Or.inr hmem
        · exact Or.inl (Or.inl hmem)
        · exact absurd (hright hmem) (not_lt.mpr hlt.le)
      · rintro ((hmem | hmem) | hmem)
        · exact Or.inr (Or.inl hmem)
        · exact absurd (hright (Or.inl hmem)) (not_lt.mpr hlt.le)
        · exact Or.inl hmem
    · next hge =>
      constructor
      · rintro (hmem | hmem | hmem | hmem)
        · exact absurd (hleft hmem) hge
        · exact Or.inl (Or.inl hmem)
        · exact Or.inl (Or.inr hmem)
        · exact Or.inr hmem
      · rintro ((hmem | hmem) | hmem)
        · exact Or.inr (Or.inl hmem)
        · exact Or.inr (Or.inr (Or.inl hmem))
        · exact Or.inr (Or.inr (Or.inr hmem))

end Order

/-! ## Trees -/

/-- A node: where it is, and its children. -/
structure Branch (K α : Type) where
  addr : ℕ
  kids : Kids K α

/-- Trees of a given height; below the leaves there is nothing. -/
def MTree (K : Type) : ℕ → Type
  | 0 => Unit
  | h + 1 => Branch K (MTree K h)

/-- A tree with a root. -/
abbrev AnyTree (K : Type) := Σ h, MTree K (h + 1)

namespace MTree

/-- What is below a leaf. -/
def nil : MTree K 0 := ()

/-- A node over its children. -/
def node {h : ℕ} (addr : ℕ) (kids : Kids K (MTree K h)) : MTree K (h + 1) :=
  (⟨addr, kids⟩ : Branch K (MTree K h))

def addr {h : ℕ} (t : MTree K (h + 1)) : ℕ := Branch.addr t

def kids {h : ℕ} (t : MTree K (h + 1)) : Kids K (MTree K h) := Branch.kids t

@[simp] theorem addr_node {h : ℕ} (a : ℕ) (k : Kids K (MTree K h)) : (node a k).addr = a := rfl

@[simp] theorem kids_node {h : ℕ} (a : ℕ) (k : Kids K (MTree K h)) : (node a k).kids = k := rfl

/-- The keys, in their order. -/
def keys : {h : ℕ} → MTree K h → List K
  | 0, _ => []
  | _ + 1, t => inorder keys t.kids

/-- The addresses of the nodes. -/
def addrs : {h : ℕ} → MTree K h → Multiset ℕ
  | 0, _ => 0
  | _ + 1, t => {t.addr} + (t.kids.children.map addrs).sum

/-- The tree without its addresses. -/
def bare : {h : ℕ} → MTree K h → MTree K h
  | 0, t => t
  | _ + 1, t => node 0 (t.kids.map bare)

theorem keys_succ {h : ℕ} (t : MTree K (h + 1)) : t.keys = inorder keys t.kids := rfl

theorem bare_succ {h : ℕ} (t : MTree K (h + 1)) : t.bare = node 0 (t.kids.map bare) := rfl

theorem addrs_succ {h : ℕ} (t : MTree K (h + 1)) :
    t.addrs = {t.addr} + (t.kids.children.map addrs).sum := rfl

theorem addr_mem_addrs {h : ℕ} (t : MTree K (h + 1)) : t.addr ∈ t.addrs := by
  rw [addrs_succ]
  exact Multiset.mem_add.mpr (Or.inl (Multiset.mem_singleton_self _))

/-- The addresses of one of some trees. -/
theorem addrs_le_sum {h : ℕ} {cs : List (MTree K h)} {c : MTree K h} (hc : c ∈ cs) :
    c.addrs ≤ (cs.map addrs).sum := by
  induction cs with
  | nil => exact absurd hc List.not_mem_nil
  | cons d cs ih =>
    rw [List.map_cons, List.sum_cons]
    rcases List.mem_cons.mp hc with rfl | hc
    · exact Multiset.le_add_right _ _
    · exact (ih hc).trans (Multiset.le_add_left _ _)

theorem mem_sum_addrs {h : ℕ} {cs : List (MTree K h)} {a : ℕ} :
    a ∈ (cs.map addrs).sum ↔ ∃ c ∈ cs, a ∈ c.addrs := by
  induction cs with
  | nil => simp
  | cons d cs ih => simp [ih]

theorem addrs_le_of_mem {h : ℕ} {t : MTree K (h + 1)} {c : MTree K h} (hc : c ∈ t.kids.children) :
    c.addrs ≤ t.addrs := (addrs_le_sum hc).trans (Multiset.le_add_left _ _)

/-- The address of a node is not among those below it. -/
theorem addr_notMem_child {h : ℕ} {t : MTree K (h + 1)} (hn : t.addrs.Nodup) {c : MTree K h}
    (hc : c ∈ t.kids.children) : t.addr ∉ c.addrs := fun hmem => by
  rw [addrs_succ] at hn
  exact Multiset.disjoint_left.mp (Multiset.nodup_add.mp hn).2.2 (Multiset.mem_singleton_self _)
    (mem_sum_addrs.mpr ⟨c, hc, hmem⟩)

/-- The addresses of the other children. -/
theorem addrs_perm {h : ℕ} {t : MTree K (h + 1)} {c : MTree K h} {cs : List (MTree K h)}
    (hp : t.kids.children.Perm (c :: cs)) :
    t.addrs = {t.addr} + (c.addrs + (cs.map addrs).sum) := by
  rw [addrs_succ, (hp.map addrs).sum_eq, List.map_cons, List.sum_cons]

/-! ## Sizes -/

/-- No node holds less than `minKeys` keys or more than `maxKeys`. -/
def Sized (minKeys maxKeys : ℕ) : {h : ℕ} → MTree K h → Prop
  | 0, _ => True
  | _ + 1, t => minKeys ≤ t.kids.seps.length ∧ t.kids.seps.length ≤ maxKeys ∧
      ∀ c ∈ t.kids.children, Sized minKeys maxKeys c

/-- The root may hold less, but not none over other nodes. -/
structure RootSized (minKeys maxKeys : ℕ) {h : ℕ} (t : MTree K (h + 1)) : Prop where
  pos : h ≠ 0 → 1 ≤ t.kids.seps.length
  le : t.kids.seps.length ≤ maxKeys
  below : ∀ c ∈ t.kids.children, Sized minKeys maxKeys c

variable {minKeys maxKeys : ℕ}

/-- Children that have `n` keys each. -/
theorem length_keys_ge {h n : ℕ} {t : MTree K (h + 1)}
    (hbelow : ∀ c ∈ t.kids.children, n ≤ c.keys.length + 1) :
    (t.kids.seps.length + 1) * n ≤ t.keys.length + 1 := by
  have hsum : ∀ cs : List (MTree K h), (∀ c ∈ cs, n ≤ c.keys.length + 1) →
      cs.length * n ≤ (cs.map fun c => c.keys.length).sum + cs.length := by
    intro cs hcs
    induction cs with
    | nil => simp
    | cons c cs ih =>
      have hc := hcs c List.mem_cons_self
      have hrest := ih fun d hd => hcs d (List.mem_cons_of_mem _ hd)
      rw [List.length_cons, Nat.add_mul, Nat.one_mul, List.map_cons, List.sum_cons]
      omega
  have hall := hsum t.kids.children hbelow
  rw [Kids.length_children] at hall
  rw [keys_succ, length_inorder]
  omega

/-- A node with as few keys as possible. -/
theorem pow_le_length_keys : {h : ℕ} → {t : MTree K h} → t.Sized minKeys maxKeys →
    (minKeys + 1) ^ h ≤ t.keys.length + 1
  | 0, _, _ => le_of_eq rfl
  | h + 1, t, ht => by
    have hbelow := length_keys_ge fun c hc => pow_le_length_keys (ht.2.2 c hc)
    refine le_trans ?_ hbelow
    rw [Nat.pow_succ, Nat.mul_comm]
    exact Nat.mul_le_mul_right _ (Nat.succ_le_succ ht.1)

/-- **A tree with many levels has many keys.** -/
theorem RootSized.height_le {h : ℕ} {t : MTree K (h + 1)} (ht : t.RootSized minKeys maxKeys)
    (hne : t.keys ≠ []) : 2 * (minKeys + 1) ^ h ≤ t.keys.length + 1 := by
  cases h with
  | zero =>
    have hpos := List.length_pos_iff.mpr hne
    rw [Nat.pow_zero]
    omega
  | succ h =>
    have hbelow := length_keys_ge fun c hc => pow_le_length_keys (ht.below c hc)
    refine le_trans ?_ hbelow
    exact Nat.mul_le_mul_right _ (Nat.succ_le_succ (ht.pos (Nat.succ_ne_zero h)))

/-! ## Order -/

section Order

variable [LinearOrder K]

/-- The keys ascend, between two bounds. -/
def Ordered : {h : ℕ} → WithBot K → WithTop K → MTree K h → Prop
  | 0, _, _, _ => True
  | _ + 1, lo, hi, t => t.kids.Ordered (fun lo hi c => Ordered lo hi c) lo hi

variable {lo : WithBot K} {hi : WithTop K}

/-- **The keys of an ordered tree ascend.** -/
theorem Ordered.between_keys : {h : ℕ} → {t : MTree K h} → {lo : WithBot K} → {hi : WithTop K} →
    t.Ordered lo hi → Between lo hi t.keys
  | 0, _, _, _, _ => ⟨List.Pairwise.nil, fun _ h => absurd h List.not_mem_nil⟩
  | _ + 1, _, _, _, ht => between_inorder (fun _ _ _ hc => Ordered.between_keys hc) ht

/-- The descent for a key. -/
def contains (key : K) : {h : ℕ} → MTree K h → Bool
  | 0, _ => false
  | _ + 1, t => decide (key ∈ t.kids.seps) || contains key (t.kids.pick key)

/-- **The descent for a key finds it** when it is there. -/
theorem contains_iff : {h : ℕ} → {t : MTree K h} → {lo : WithBot K} → {hi : WithTop K} →
    t.Ordered lo hi → (t.contains key = true ↔ key ∈ t.keys)
  | 0, _, _, _, _ => by simp [contains, keys]
  | _ + 1, t, lo, hi, ht => by
    obtain ⟨lo', hi', hpick⟩ := Kids.Ordered.exists_of_mem ht (Kids.pick_mem_children key t.kids)
    rw [contains, Bool.or_eq_true, decide_eq_true_eq, contains_iff hpick, keys_succ]
    exact (mem_inorder_pick (fun _ _ _ hc => Ordered.between_keys hc) ht).symm

end Order

end MTree

/-- A tree with a root, without its addresses. -/
def AnyTree.bare (t : AnyTree K) : AnyTree K := ⟨t.1, t.2.bare⟩

end BTree
