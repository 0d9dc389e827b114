import MiniDB.Study.Searching
import Mathlib.Data.List.InsertIdx

/-!
# Inserting into a node

* `shiftLarger_eq`: **the shift** that makes room in the arrays.
* `adopted`: what assigning a parent does to the nodes.
* `nodeInsertAt_eq`: **a key is inserted into a node**, with the child to its right.
-/

namespace MiniDB.BtreeStudy

open BPlusTree (Kids)
open BTree

variable {H H' : Heap} {n : BTreeNode} {ks : List Int64} {cs : List Pointer} {c : Pointer}
  {key x : Int64} {i j a h : ℕ}

theorem setKey_eq (hi : i < n.keys.length) (k : Int64) :
    n.setKey i k = .ok { n with keys := n.keys.set i (some k) } := by
  rw [BTreeNode.setKey, if_pos hi]

theorem setChild_eq (hi : i < n.children.length) (c : Pointer) :
    n.setChild i c = .ok { n with children := n.children.set i c } := by
  rw [BTreeNode.setChild, if_pos hi]

theorem key_of_getElem? (h : n.keys[i]? = some (some x)) : n.key i = .ok x := by
  rw [BTreeNode.key, h]

theorem child_of_getElem? (h : n.children[i]? = some c) : n.child i = .ok c := by
  rw [BTreeNode.child, h]

@[simp] theorem nodes_set (H : Heap) (a : ℕ) (n : BTreeNode) :
    (H.set a n).nodes = Function.update H.nodes a (some n) := rfl

@[simp] theorem next_set (H : Heap) (a : ℕ) (n : BTreeNode) : (H.set a n).next = H.next := rfl

/-! ## Inserting into a node -/

/-- The arrays behind the shift: from `j` on the keys moved up by one, `m` of them, and the children
to their right. -/
structure Shifted (n n' : BTreeNode) (j m : ℕ) : Prop where
  same : n' = { n with keys := n'.keys, children := n'.children }
  keySlots : n'.keys.length = n.keys.length
  childSlots : n'.children.length = n.children.length
  keys : ∀ i, n'.keys[i]? = if j < i ∧ i ≤ j + m then n.keys[i - 1]? else n.keys[i]?
  children : ∀ i, n'.children[i]? =
    if j + 1 < i ∧ i ≤ j + m + 1 then n.children[i - 1]? else n.children[i]?

/-- One step of the shift, in front of the others. -/
theorem Shifted.step {n n' : BTreeNode} {m : ℕ} {k : Option Int64} {c : Pointer}
    (hk : n.keys[j + m]? = some k) (hc : n.children[j + m + 1]? = some c)
    (hkeys : j + m + 1 < n.keys.length) (hchildren : j + m + 2 < n.children.length)
    (h : Shifted { n with keys := n.keys.set (j + m + 1) k,
                          children := n.children.set (j + m + 2) c } n' j m) :
    Shifted n n' j (m + 1) where
  same := h.same
  keySlots := h.keySlots.trans (List.length_set)
  childSlots := h.childSlots.trans (List.length_set)
  keys i := by
    rw [h.keys i]
    dsimp only
    rw [List.getElem?_set, List.getElem?_set]
    by_cases hlast : i = j + m + 1
    · subst hlast
      rw [if_neg (by omega), if_pos rfl, if_pos hkeys, if_pos (by omega), Nat.add_sub_cancel, hk]
    · by_cases hin : j < i ∧ i ≤ j + m
      · rw [if_pos hin, if_neg (by omega), if_pos (by omega)]
      · rw [if_neg hin, if_neg (by omega), if_neg (by omega)]
  children i := by
    rw [h.children i]
    dsimp only
    rw [List.getElem?_set, List.getElem?_set]
    by_cases hlast : i = j + m + 2
    · subst hlast
      rw [if_neg (by omega), if_pos rfl, if_pos hchildren, if_pos (by omega)]
      exact hc.symm
    · by_cases hin : j + 1 < i ∧ i ≤ j + m + 1
      · rw [if_pos hin, if_neg (by omega), if_pos (by omega)]
      · rw [if_neg hin, if_neg (by omega), if_neg (by omega)]

/-- **The shift** ends in front of the keys that are larger. -/
theorem shiftLarger_eq (hj : j ≤ ks.length) (hle : ∀ y ∈ ks.take j, y ≤ key)
    (hlt : ∀ y ∈ ks.drop j, key < y) (hroom : ks.length ≤ maxKeys)
    (harity : cs.length = ks.length + 1) :
    (m : ℕ) → (n : BTreeNode) → j + m ≤ ks.length → n.keys.length = maxKeys + 1 →
    n.children.length = order + 1 → (∀ i (hi : i < ks.length), i < j + m →
      n.keys[i]? = some (some ks[i])) →
    (∀ i (hi : i < cs.length), i ≤ j + m → n.children[i]? = some cs[i]) →
    ∃ n', shiftLarger key (j + m) n = .ok (j, n') ∧ Shifted n n' j m
  | 0, n, hm, hslots, hcslots, hkeys, _ => by
    have hsame : Shifted n n j 0 := ⟨rfl, rfl, rfl, fun i => by rw [if_neg (by omega)],
      fun i => by rw [if_neg (by omega)]⟩
    refine ⟨n, ?_, hsame⟩
    cases j with
    | zero => rfl
    | succ j =>
      have hmem : ks[j] ∈ ks.take (j + 1) := List.mem_take_iff_getElem.mpr ⟨j, by omega, rfl⟩
      rw [Nat.add_zero, shiftLarger, key_of_getElem? (hkeys j hj (by omega)), ok_bind,
        if_neg (not_lt.mpr (hle _ hmem))]
      rfl
  | m + 1, n, hm, hslots, hcslots, hkeys, hchildren => by
    have hlast : j + m < ks.length := by omega
    have hmem : ks[j + m] ∈ ks.drop j := List.mem_drop_iff_getElem.mpr ⟨m, by omega, rfl⟩
    have hk := hkeys (j + m) hlast (by omega)
    have hc := hchildren (j + m + 1) (by omega) (by omega)
    have hkslot : j + m + 1 < n.keys.length := by omega
    have hmax : maxKeys = 4 := rfl
    have horder : order = 5 := rfl
    have hcslot : j + m + 2 < n.children.length := by omega
    obtain ⟨n', hrun, hshift⟩ := shiftLarger_eq hj hle hlt hroom harity m
      { n with keys := n.keys.set (j + m + 1) (some ks[j + m]),
               children := n.children.set (j + m + 2) cs[j + m + 1] } (by omega)
      (by rw [List.length_set, hslots]) (by rw [List.length_set, hcslots])
      (fun i hi hij => by
        rw [List.getElem?_set_ne (by omega)]
        exact hkeys i hi (by omega))
      (fun i hi hij => by
        rw [List.getElem?_set_ne (by omega)]
        exact hchildren i hi (by omega))
    have hget : BTreeNode.child { n with keys := n.keys.set (j + m + 1) (some ks[j + m]) }
        (j + m + 1) = .ok cs[j + m + 1] := child_of_getElem? hc
    have hput : BTreeNode.setChild { n with keys := n.keys.set (j + m + 1) (some ks[j + m]) }
        (j + m + 2) cs[j + m + 1] =
          .ok { n with keys := n.keys.set (j + m + 1) (some ks[j + m]),
                       children := n.children.set (j + m + 2) cs[j + m + 1] } := if_pos hcslot
    refine ⟨n', ?_, hshift.step hk hc hkslot hcslot⟩
    rw [← Nat.add_assoc, shiftLarger, key_of_getElem? hk, ok_bind, if_pos (hlt _ hmem),
      setKey_eq hkslot, ok_bind, hget, ok_bind, hput, ok_bind]
    exact hrun

/-- The arrays with the key in its place, and the child to its right. -/
theorem Shifted.shows {n n' : BTreeNode} {m : ℕ} (hn : Shows n ks cs) (hroom : ks.length ≤ maxKeys)
    (hm : j + m = ks.length) (h : Shifted n n' j m) (key : Int64) (c : Pointer) :
    Shows { n' with keys := n'.keys.set j (some key), children := n'.children.set (j + 1) c,
                    numKeys := n'.numKeys + 1 } (ks.insertIdx j key) (cs.insertIdx (j + 1) c) := by
  have harity := hn.arity
  have hmax : maxKeys = 4 := rfl
  have horder : order = 5 := rfl
  have hkslots := hn.keySlots
  have hcslots := hn.childSlots
  have hlenk : (ks.insertIdx j key).length = ks.length + 1 :=
    List.length_insertIdx_of_le_length (by omega) _
  have hlenc : (cs.insertIdx (j + 1) c).length = cs.length + 1 :=
    List.length_insertIdx_of_le_length (by omega) _
  refine ⟨?_, ?_, ?_, ?_, ?_, ?_⟩
  · rw [hlenk, h.same]
    exact congrArg (· + 1) hn.numKeys
  · refine List.prefix_iff_getElem?.mpr fun i hi => ?_
    rw [List.length_map, hlenk] at hi
    dsimp only
    rw [List.getElem_map, List.getElem?_set, h.keys, h.keySlots]
    rw [List.getElem_insertIdx]
    by_cases hij : i = j
    · subst hij
      rw [if_pos rfl, if_pos (by omega)]
      simp
    · rw [if_neg (by omega)]
      by_cases hlt : i < j
      · rw [if_neg (by omega), hn.getElem?_keys (by omega), dif_pos hlt]
      · rw [if_pos (by omega), hn.getElem?_keys (by omega), dif_neg hlt, dif_neg hij]
  · refine List.prefix_iff_getElem?.mpr fun i hi => ?_
    rw [hlenc] at hi
    dsimp only
    rw [List.getElem?_set, h.children, h.childSlots]
    rw [List.getElem_insertIdx]
    by_cases hij : i = j + 1
    · subst hij
      rw [if_pos rfl, if_pos (by omega)]
      simp
    · rw [if_neg (by omega)]
      by_cases hlt : i < j + 1
      · rw [if_neg (by omega), hn.getElem?_children (by omega), dif_pos hlt]
      · rw [if_pos (by omega), hn.getElem?_children (by omega), dif_neg hlt, dif_neg hij]
  · dsimp only
    rw [List.length_set, h.keySlots, hkslots]
  · dsimp only
    rw [List.length_set, h.childSlots, hcslots]
  · rw [hlenk, hlenc, harity]

/-- A node behind assigning a parent to some. -/
def adopted (H : Heap) (parent : ℕ) (ds : List Pointer) (b : ℕ) : Option BTreeNode :=
  if some b ∈ ds then (H.nodes b).map fun n => { n with parent := some parent } else H.nodes b

theorem adopted_of_notMem {ds : List Pointer} {b : ℕ} (hb : some b ∉ ds) (parent : ℕ) :
    adopted H parent ds b = H.nodes b := if_neg hb

/-- Parents are assigned one after the other. -/
theorem adopted_adopted {H₁ : Heap} {ds es : List Pointer} {r b : ℕ}
    (h : H₁.nodes b = adopted H r ds b) : adopted H₁ r es b = adopted H r (ds ++ es) b := by
  unfold adopted at h ⊢
  rw [h]
  by_cases hd : some b ∈ ds
  · rw [if_pos hd, if_pos (List.mem_append_left es hd), Option.map_map]
    split <;> rfl
  · have hiff : some b ∈ ds ++ es ↔ some b ∈ es := by rw [List.mem_append, or_iff_right hd]
    rw [if_neg hd, if_congr hiff rfl rfl]

/-- Nothing is wrong with a pointer to a node. -/
theorem setParent_eq (hc : ∀ b, c = some b → ∃ n, H.nodes b = some n) (a : ℕ) :
    ∃ H', setParent H c a = .ok H' ∧ H'.next = H.next ∧ ∀ b, H'.nodes b = adopted H a [c] b := by
  cases c with
  | none => exact ⟨H, rfl, rfl, fun b => (adopted_of_notMem (by simp) a).symm⟩
  | some d =>
    obtain ⟨n, hn⟩ := hc d rfl
    refine ⟨H.set d { n with parent := some a }, by rw [setParent, get_some hn, ok_bind]; rfl, rfl,
      fun b => ?_⟩
    rw [nodes_set]
    by_cases hb : b = d
    · subst hb
      rw [Function.update_self, adopted, if_pos (List.mem_singleton.mpr rfl), hn, Option.map_some]
    · rw [Function.update_of_ne hb, adopted_of_notMem]
      exact fun hmem => hb (Option.some_inj.mp (List.mem_singleton.mp hmem))

/-- **A key is inserted into a node**, with the child to its right. -/
theorem nodeInsertAt_eq (hn : H.nodes a = some n) (hshow : Shows n ks cs)
    (hroom : ks.length ≤ maxKeys) (hj : j ≤ ks.length) (hle : ∀ y ∈ ks.take j, y ≤ key)
    (hlt : ∀ y ∈ ks.drop j, key < y) (hc : ∀ b, c = some b → b ≠ a ∧ ∃ m, H.nodes b = some m) :
    ∃ H' n', nodeInsertAt H a key c = .ok H' ∧ H'.next = H.next ∧ H'.nodes a = some n' ∧
      Shows n' (ks.insertIdx j key) (cs.insertIdx (j + 1) c) ∧ n'.parent = n.parent ∧
      n'.isLeaf = n.isLeaf ∧ ∀ b, b ≠ a → H'.nodes b = adopted H a [c] b := by
  have harity := hshow.arity
  have hkslots := hshow.keySlots
  have hcslots := hshow.childSlots
  have hmax : maxKeys = 4 := rfl
  have horder : order = 5 := rfl
  obtain ⟨n₁, hshift, hn₁⟩ := shiftLarger_eq hj hle hlt hroom harity (ks.length - j) n (by omega)
    hkslots hcslots (fun i hi _ => hshow.getElem?_keys hi)
    (fun i hi _ => hshow.getElem?_children hi)
  rw [Nat.add_sub_cancel' hj] at hshift
  have hkey : n₁.setKey j key = .ok { n₁ with keys := n₁.keys.set j (some key) } :=
    setKey_eq (by rw [hn₁.keySlots]; omega) key
  obtain ⟨n₂, hn₂⟩ : ∃ n₂ : BTreeNode, n₂ = { n₁ with
    keys := n₁.keys.set j (some key), children := n₁.children.set (j + 1) c } := ⟨_, rfl⟩
  have hchild : BTreeNode.setChild { n₁ with keys := n₁.keys.set j (some key) } (j + 1) c =
      .ok n₂ := by
    rw [hn₂]
    exact if_pos (by dsimp only; rw [hn₁.childSlots]; omega)
  obtain ⟨H₁, hrun, hnext, hnodes⟩ := setParent_eq (H := H.set a n₂) (c := c) (fun b hb => by
    obtain ⟨hba, m, hm⟩ := hc b hb
    exact ⟨m, by rw [nodes_set, Function.update_of_ne hba, hm]⟩) a
  have ha : H₁.nodes a = some n₂ := by
    rw [hnodes, adopted_of_notMem (fun hmem => (hc a (List.mem_singleton.mp hmem).symm).1 rfl),
      nodes_set, Function.update_self]
  refine ⟨H₁.set a { n₂ with numKeys := n₂.numKeys + 1 }, { n₂ with numKeys := n₂.numKeys + 1 }, ?_,
    hnext, Function.update_self .., ?_, ?_, ?_, fun b hb => ?_⟩
  · rw [nodeInsertAt, get_some hn, ok_bind, hshow.numKeys, hshift, ok_bind]
    dsimp only
    rw [hkey, ok_bind, hchild, ok_bind, hrun, ok_bind, get_some ha, ok_bind]
    rfl
  · rw [hn₂]
    exact hn₁.shows hshow hroom (by omega) key c
  · rw [hn₂, hn₁.same]
  · rw [hn₂, hn₁.same]
  · rw [nodes_set, Function.update_of_ne hb, hnodes, adopted, nodes_set, Function.update_of_ne hb]
    rfl

end MiniDB.BtreeStudy
