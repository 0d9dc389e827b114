import MiniDB.Model.BtreeStudy
import MiniDB.BTree.Insert

/-!
# Trees on the heap

* `Shows`: what the arrays of a node hold.
* `Stored`: **a tree is on the heap**, each node with its parent.
* `Stored.congr`: it depends on the nodes of the tree alone.
* `skipSmaller_eq`, `skipLarger_eq`: **where the loops over the keys of a node stop**.
-/

namespace MiniDB.BtreeStudy

open BPlusTree (Kids)
open BTree

/-- What the arrays of a node hold in front: the keys, and the pointers to the children. -/
structure Shows (n : BTreeNode) (ks : List Int64) (cs : List Pointer) : Prop where
  numKeys : n.numKeys = ks.length
  keys : ks.map some <+: n.keys
  children : cs <+: n.children
  keySlots : n.keys.length = maxKeys + 1
  childSlots : n.children.length = order + 1
  arity : cs.length = ks.length + 1

/-- The pointer to a tree. -/
def pointer : {h : ℕ} → MTree Int64 h → Pointer
  | 0, _ => none
  | _ + 1, t => some t.addr

/-- The pointers to the children. -/
def pointers {h : ℕ} (k : Kids Int64 (MTree Int64 h)) : List Pointer := k.children.map pointer

/-- A node shows the root of a tree, under a parent. -/
structure ShowsRoot (n : BTreeNode) (parent : Pointer) {h : ℕ} (t : MTree Int64 (h + 1)) :
    Prop where
  shows : Shows n t.kids.seps (pointers t.kids)
  parent : n.parent = parent
  isLeaf : n.isLeaf = decide (h = 0)

/-- **The tree is on the heap**, under a parent. -/
def Stored (H : Heap) : {h : ℕ} → Pointer → MTree Int64 h → Prop
  | 0, _, _ => True
  | _ + 1, parent, t => (∃ n, H.nodes t.addr = some n ∧ ShowsRoot n parent t) ∧
      ∀ c ∈ t.kids.children, Stored H (some t.addr) c

variable {H H' : Heap} {n : BTreeNode} {ks : List Int64} {cs : List Pointer} {p : Pointer}
  {key x : Int64} {i a h : ℕ} {hi : WithTop Int64}

/-! ## Reading -/

theorem Shows.getElem?_keys (hn : Shows n ks cs) (hi : i < ks.length) :
    n.keys[i]? = some (some ks[i]) := by
  have hget := List.prefix_iff_getElem?.mp hn.keys i (by rwa [List.length_map])
  rwa [List.getElem_map] at hget

theorem Shows.getElem?_children (hn : Shows n ks cs) (hi : i < cs.length) :
    n.children[i]? = some cs[i] := List.prefix_iff_getElem?.mp hn.children i hi

theorem Shows.key_eq (hn : Shows n ks cs) (hi : ks[i]? = some x) : n.key i = .ok x := by
  obtain ⟨hlt, rfl⟩ := List.getElem?_eq_some_iff.mp hi
  rw [BTreeNode.key, hn.getElem?_keys hlt]

theorem Shows.child_eq (hn : Shows n ks cs) (hi : cs[i]? = some p) : n.child i = .ok p := by
  obtain ⟨hlt, rfl⟩ := List.getElem?_eq_some_iff.mp hi
  rw [BTreeNode.child, hn.getElem?_children hlt]

/-- A node has five keys at most. -/
theorem Shows.length_le (hn : Shows n ks cs) : ks.length ≤ maxKeys + 1 := by
  have hle := hn.keys.length_le
  rwa [List.length_map, hn.keySlots] at hle

theorem length_pointers (k : Kids Int64 (MTree Int64 h)) :
    (pointers k).length = k.seps.length + 1 := by
  rw [pointers, List.length_map, Kids.length_children]

theorem get_some (h : H.nodes a = some n) : H.get (some a) = .ok n := by
  rw [Heap.get, h]

/-- The root of a tree on the heap. -/
theorem Stored.root {t : MTree Int64 (h + 1)} (hst : Stored H p t) :
    ∃ n, H.nodes t.addr = some n ∧ ShowsRoot n p t := hst.1

theorem Stored.child {t : MTree Int64 (h + 1)} (hst : Stored H p t) {c : MTree Int64 h}
    (hc : c ∈ t.kids.children) : Stored H (some t.addr) c := hst.2 c hc

/-- A tree on the heap depends on its own nodes alone. -/
theorem Stored.congr : {h : ℕ} → {p : Pointer} → {t : MTree Int64 h} → Stored H p t →
    (∀ a ∈ t.addrs, H'.nodes a = H.nodes a) → Stored H' p t
  | 0, _, _, _, _ => trivial
  | _ + 1, _, t, hst, hsame => by
    obtain ⟨⟨n, hn, hshow⟩, hbelow⟩ := hst
    refine ⟨⟨n, (hsame _ t.addr_mem_addrs).trans hn, hshow⟩, fun c hc => ?_⟩
    exact (hbelow c hc).congr fun a ha =>
      hsame a (Multiset.mem_of_le (MTree.addrs_le_of_mem hc) ha)

/-- Every address of a tree on the heap is one of a node. -/
theorem Stored.exists_node : {h : ℕ} → {p : Pointer} → {t : MTree Int64 h} → Stored H p t →
    ∀ a ∈ t.addrs, ∃ n, H.nodes a = some n
  | 0, _, _, _, _, ha => absurd ha (Multiset.notMem_zero _)
  | _ + 1, _, t, hst, a, ha => by
    rw [MTree.addrs_succ, Multiset.mem_add, Multiset.mem_singleton] at ha
    rcases ha with rfl | ha
    · obtain ⟨n, hn, -⟩ := hst.root
      exact ⟨n, hn⟩
    · obtain ⟨c, hc, ha⟩ := MTree.mem_sum_addrs.mp ha
      exact (hst.child hc).exists_node a ha

/-! ## Positions -/

/-- The scan from the left stops at the first key that is not smaller. -/
theorem skipSmaller_eq (key : Int64) (hn : Shows n ks cs) : (left i : ℕ) → i + left = ks.length →
    skipSmaller n key left i = .ok (i + ((ks.drop i).takeWhile (· < key)).length)
  | 0, i, hi => by
    rw [List.drop_of_length_le (by omega)]
    rfl
  | left + 1, i, hi => by
    have hlt : i < ks.length := by omega
    rw [skipSmaller, hn.key_eq (List.getElem?_eq_getElem hlt), ok_bind,
      List.drop_eq_getElem_cons hlt]
    split
    · next hless =>
      rw [skipSmaller_eq key hn left (i + 1) (by omega),
        List.takeWhile_cons_of_pos (by simpa using hless), List.length_cons]
      congr 1
      omega
    · next hge =>
      rw [List.takeWhile_cons_of_neg (by simpa using hge)]
      rfl

/-- The scan from the right stops behind the last key that is not larger. -/
theorem skipLarger_eq (hn : Shows n ks cs) (hi : i ≤ ks.length) (hle : ∀ y ∈ ks.take i, y ≤ key)
    (hlt : ∀ y ∈ ks.drop i, key < y) : (m : ℕ) → i + m ≤ ks.length →
    skipLarger n key (i + m) = .ok i
  | 0, _ => by
    cases i with
    | zero => rfl
    | succ i =>
      have hlast : ks[i]? = some ks[i] := List.getElem?_eq_getElem hi
      have hmem : ks[i] ∈ ks.take (i + 1) := List.mem_take_iff_getElem.mpr ⟨i, by omega, rfl⟩
      rw [Nat.add_zero, skipLarger, hn.key_eq hlast, ok_bind, if_neg (not_lt.mpr (hle _ hmem))]
      rfl
  | m + 1, hm => by
    have hj : i + m < ks.length := by omega
    have hmem : ks[i + m] ∈ ks.drop i := List.mem_drop_iff_getElem.mpr ⟨m, by omega, rfl⟩
    rw [← Nat.add_assoc, skipLarger, hn.key_eq (List.getElem?_eq_getElem hj), ok_bind,
      if_pos (hlt _ hmem)]
    exact skipLarger_eq hn hi hle hlt m (by omega)

/-- The separators around the picked child. -/
theorem index_spec {α : Type} {k : Kids Int64 α} (hk : k.seps.Pairwise (· < ·)) (key : Int64) :
    (∀ y ∈ k.seps.take (k.index key), y ≤ key) ∧ ∀ y ∈ k.seps.drop (k.index key), key < y := by
  induction k with
  | one c => exact ⟨by simp, by simp⟩
  | cons c s t ih =>
    obtain ⟨hfirst, hrest⟩ := List.pairwise_cons.mp hk
    rw [Kids.index, Kids.seps_cons]
    split
    · next hlt =>
      refine ⟨by simp, fun y hy => ?_⟩
      rcases List.mem_cons.mp hy with rfl | hy
      · exact hlt
      · exact hlt.trans (hfirst y hy)
    · next hge =>
      obtain ⟨hle, hlt⟩ := ih hrest
      refine ⟨fun y hy => ?_, hlt⟩
      rcases List.mem_cons.mp hy with rfl | hy
      · exact not_lt.mp hge
      · exact hle y hy

/-- When the key is no separator, the scan from the left ends at the picked child. -/
theorem index_eq_takeWhile {α : Type} {k : Kids Int64 α} (hkey : key ∉ k.seps) :
    (k.seps.takeWhile (· < key)).length = k.index key := by
  induction k with
  | one c => rfl
  | cons c s t ih =>
    rw [Kids.seps_cons, List.mem_cons, not_or] at hkey
    rw [Kids.index, Kids.seps_cons]
    split
    · next hlt =>
      rw [List.takeWhile_cons_of_neg (by simpa using hlt.le)]
      rfl
    · next hge =>
      have hless : s < key := lt_of_le_of_ne (not_lt.mp hge) (Ne.symm hkey.1)
      rw [List.takeWhile_cons_of_pos (by simpa using hless), List.length_cons, ih hkey.2]

/-- A key is found by the scan from the left at the place where it stops. -/
theorem getElem?_takeWhile (key : Int64) (hks : ks.Pairwise (· < ·)) :
    ks[(ks.takeWhile (· < key)).length]? = some key ↔ key ∈ ks := by
  refine ⟨List.mem_of_getElem?, fun hmem => ?_⟩
  induction ks with
  | nil => exact absurd hmem List.not_mem_nil
  | cons k ks ih =>
    obtain ⟨hfirst, hrest⟩ := List.pairwise_cons.mp hks
    rcases List.mem_cons.mp hmem with rfl | hmem
    · rw [List.takeWhile_cons_of_neg (by simp)]
      rfl
    · rw [List.takeWhile_cons_of_pos (by simpa using hfirst key hmem), List.length_cons,
        List.getElem?_cons_succ]
      exact ih hrest hmem

/-- The pointer to the picked child. -/
theorem getElem?_pointers (key : Int64) (k : Kids Int64 (MTree Int64 h)) :
    (pointers k)[k.index key]? = some (pointer (k.pick key)) := by
  rw [pointers, List.getElem?_map, Kids.getElem?_children_index]
  rfl

end MiniDB.BtreeStudy
