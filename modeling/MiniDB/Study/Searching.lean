import MiniDB.Study.Stored

/-!
# Searching and destroying

* `btreeSearch_eq`, `btreeSearchRec_eq`: **both searches are the descent of the tree**; they visit a
  node of each level at most.
* `nodeDestroy_frees`: **destroying a tree frees each of its nodes once**, and no other.
-/

namespace MiniDB.BtreeStudy

open BPlusTree (Kids)
open BTree

variable {H H' : Heap} {n : BTreeNode} {ks : List Int64} {cs : List Pointer} {p : Pointer}
  {key : Int64} {i a h : ℕ} {lo : WithBot Int64} {hi : WithTop Int64}

/-- The keys of a stored node ascend. -/
theorem pairwise_seps {t : MTree Int64 (h + 1)} (hord : t.Ordered lo hi) :
    t.kids.seps.Pairwise (· < ·) := Kids.Ordered.pairwise_seps hord

/-- The picked child is ordered. -/
theorem ordered_pick {t : MTree Int64 (h + 1)} (hord : t.Ordered lo hi) (key : Int64) :
    ∃ lo' hi', (t.kids.pick key).Ordered lo' hi' :=
  ⟨_, _, Kids.Ordered.pick_bounds hord key⟩

/-- The search inside a node stops at the key when it is there. -/
theorem found_eq (hn : Shows n ks cs) (hks : ks.Pairwise (· < ·)) :
    (if (ks.takeWhile (· < key)).length < n.numKeys then do
        return (← n.key (ks.takeWhile (· < key)).length) == key else pure false : Run Bool) =
      .ok (decide (key ∈ ks)) := by
  have hiff := getElem?_takeWhile key hks
  rw [hn.numKeys]
  split
  · next hlt =>
    have hget := List.getElem?_eq_getElem hlt
    rw [hn.key_eq hget, ok_bind]
    rw [hget, Option.some_inj] at hiff
    show Except.ok _ = _
    congr 1
    rw [Bool.eq_iff_iff, beq_iff_eq, decide_eq_true_eq]
    exact hiff
  · next hge =>
    rw [List.getElem?_eq_none (not_lt.mp hge)] at hiff
    have hnot : key ∉ ks := fun hmem => by cases hiff.mpr hmem
    rw [decide_eq_false hnot]
    rfl

/-- **`btree_search`** is the descent for the key. -/
theorem btreeSearch_eq : {h : ℕ} → {p : Pointer} → {t : MTree Int64 (h + 1)} →
    {lo : WithBot Int64} → {hi : WithTop Int64} → Stored H p t → t.Ordered lo hi → {fuel : ℕ} →
    h < fuel → btreeSearch fuel H (some t.addr) key = .ok (t.contains key)
  | h, p, t, lo, hi, hst, hord, fuel + 1, hfuel => by
    obtain ⟨n, hn, hshow, -, hleaf⟩ := hst.root
    have hscan := skipSmaller_eq key hshow t.kids.seps.length 0 (by omega)
    rw [List.drop_zero, Nat.zero_add] at hscan
    rw [btreeSearch, get_some hn, ok_bind, hshow.numKeys, hscan, ok_bind, ← hshow.numKeys,
      found_eq hshow (pairwise_seps hord), ok_bind, MTree.contains]
    by_cases hkey : key ∈ t.kids.seps
    · rw [decide_eq_true hkey, Bool.true_or, if_pos rfl]
      rfl
    · rw [decide_eq_false hkey, Bool.false_or, if_neg (by decide), hleaf]
      cases h with
      | zero =>
        rw [decide_eq_true rfl, if_pos rfl]
        rfl
      | succ h =>
        obtain ⟨lo', hi', hpick⟩ := ordered_pick hord key
        have hchild := getElem?_pointers key t.kids
        rw [decide_eq_false (Nat.succ_ne_zero h), if_neg (by decide), index_eq_takeWhile hkey,
          hshow.child_eq hchild, ok_bind]
        exact btreeSearch_eq (hst.child (Kids.pick_mem_children key t.kids)) hpick (by omega)

/-- The search from the right inside a node. -/
theorem foundRec_eq {α : Type} {k : Kids Int64 α} (hn : Shows n k.seps cs)
    (hk : k.seps.Pairwise (· < ·)) :
    (if 0 < k.index key then do return (← n.key (k.index key - 1)) == key
      else pure false : Run Bool) = .ok (decide (key ∈ k.seps)) := by
  obtain ⟨hle, hlt⟩ := index_spec hk key
  have hbound := Kids.index_le key k
  have hmem : key ∈ k.seps → key ∈ k.seps.take (k.index key) := fun hmem => by
    rcases List.mem_append.mp ((List.take_append_drop (k.index key) k.seps).symm ▸ hmem) with h | h
    · exact h
    · exact absurd (hlt key h) (lt_irrefl key)
  generalize k.index key = i at *
  cases i with
  | zero =>
    have hnot : key ∉ k.seps := fun h => absurd (hmem h) List.not_mem_nil
    rw [if_neg (lt_irrefl 0), decide_eq_false hnot]
    rfl
  | succ i =>
    have hget : k.seps[i]? = some k.seps[i] := List.getElem?_eq_getElem hbound
    rw [if_pos (Nat.succ_pos i), Nat.add_sub_cancel, hn.key_eq hget, ok_bind]
    show Except.ok _ = _
    congr 1
    rw [Bool.eq_iff_iff, beq_iff_eq, decide_eq_true_eq]
    refine ⟨fun heq => heq ▸ List.getElem_mem hbound, fun h => ?_⟩
    -- the key is among the first ones, of which this is the last
    obtain ⟨j, hj, hkey⟩ := List.mem_take_iff_getElem.mp (hmem h)
    rw [Nat.lt_min] at hj
    have hlast : k.seps[i] ≤ key := hle _ (List.mem_take_iff_getElem.mpr ⟨i, by omega, rfl⟩)
    rcases Nat.lt_or_ge j i with hji | hji
    · have hless := List.pairwise_iff_getElem.mp hk j i hj.2 hbound hji
      rw [hkey] at hless
      exact absurd hless (not_lt.mpr hlast)
    · obtain rfl : j = i := by omega
      exact hkey

/-- **`btree_search_rec`** is the descent for the key as well; below a leaf it meets `NULL`. -/
theorem btreeSearchRec_eq : {h : ℕ} → {p : Pointer} → {t : MTree Int64 h} →
    {lo : WithBot Int64} → {hi : WithTop Int64} → Stored H p t → t.Ordered lo hi → {fuel : ℕ} →
    h < fuel → btreeSearchRec fuel H (pointer t) key = .ok (t.contains key)
  | 0, _, _, _, _, _, _, _ + 1, _ => rfl
  | h + 1, p, t, lo, hi, hst, hord, fuel + 1, hfuel => by
    obtain ⟨n, hn, hshow, -, -⟩ := hst.root
    obtain ⟨hle, hlt⟩ := index_spec (pairwise_seps hord) key
    have hbound := Kids.index_le key t.kids
    have hscan := skipLarger_eq hshow hbound hle hlt (t.kids.seps.length - t.kids.index key)
      (by omega)
    rw [Nat.add_sub_cancel' hbound] at hscan
    obtain ⟨lo', hi', hpick⟩ := ordered_pick hord key
    rw [pointer, btreeSearchRec, get_some hn, ok_bind, hshow.numKeys, hscan, ok_bind,
      foundRec_eq hshow (pairwise_seps hord), ok_bind, MTree.contains]
    by_cases hkey : key ∈ t.kids.seps
    · rw [decide_eq_true hkey, Bool.true_or, if_pos rfl]
      rfl
    · rw [decide_eq_false hkey, Bool.false_or, if_neg (by decide),
        hshow.child_eq (getElem?_pointers key t.kids), ok_bind]
      exact btreeSearchRec_eq (hst.child (Kids.pick_mem_children key t.kids)) hpick (by omega)

/-! ## Destroying -/

/-- What is left of a heap without some nodes. -/
structure Without (H H' : Heap) (freed : Multiset ℕ) : Prop where
  gone : ∀ a ∈ freed, H'.nodes a = none
  other : ∀ a, a ∉ freed → H'.nodes a = H.nodes a
  next : H'.next = H.next

theorem Without.refl (H : Heap) : Without H H 0 :=
  ⟨fun a ha => absurd ha (Multiset.notMem_zero a), fun _ _ => rfl, rfl⟩

theorem Without.trans {H'' : Heap} {freed freed' : Multiset ℕ} (h : Without H H' freed)
    (h' : Without H' H'' freed') : Without H H'' (freed + freed') where
  gone a ha := by
    by_cases hin : a ∈ freed'
    · exact h'.gone a hin
    · rw [h'.other a hin]
      exact h.gone a ((Multiset.mem_add.mp ha).resolve_right hin)
  other a ha := by
    rw [Multiset.mem_add, not_or] at ha
    rw [h'.other a ha.2, h.other a ha.1]
  next := h'.next.trans h.next

/-- Freeing a node that is there. -/
theorem free_without (hn : H.nodes a = some n) : ∃ H', H.free a = .ok H' ∧ Without H H' {a} := by
  refine ⟨{ H with nodes := Function.update H.nodes a none }, by rw [Heap.free, hn], ?_, ?_, rfl⟩
  · intro b hb
    rw [Multiset.mem_singleton.mp hb]
    exact Function.update_self a none H.nodes
  · intro b hb
    exact Function.update_of_ne (fun h => hb (Multiset.mem_singleton.mpr h)) none H.nodes

/-- **The loop over the children** destroys each of them. -/
theorem destroyChildren_frees {t : MTree Int64 (h + 1)} {destroy : Heap → Pointer → Run Heap}
    (hdestroy : ∀ (H : Heap) (c : MTree Int64 h), Stored H (some t.addr) c → c.addrs.Nodup →
      ∃ H', destroy H (pointer c) = .ok H' ∧ Without H H' c.addrs) (hroot : t.addrs.Nodup) :
    (cs : List (MTree Int64 h)) → (done : List (MTree Int64 h)) → t.kids.children = done ++ cs →
    (H : Heap) → (∃ n, H.nodes t.addr = some n ∧ Shows n t.kids.seps (pointers t.kids)) →
    (∀ c ∈ cs, Stored H (some t.addr) c) →
    ∃ H', destroyChildren destroy H t.addr (List.range' done.length cs.length) = .ok H' ∧
      Without H H' (cs.map MTree.addrs).sum
  | [], _, _, H, _, _ => ⟨H, rfl, Without.refl H⟩
  | c :: cs, done, hcs, H, ⟨n, hn, hshow⟩, hst => by
    have hmem : ∀ d ∈ c :: cs, d ∈ t.kids.children := fun d hd => hcs ▸ List.mem_append_right _ hd
    have hnodup : ((c :: cs).map MTree.addrs).sum.Nodup := by
      refine Multiset.nodup_of_le ?_ hroot
      rw [MTree.addrs_succ, hcs, List.map_append, List.sum_append]
      exact (Multiset.le_add_left _ _).trans (Multiset.le_add_left _ _)
    rw [List.map_cons, List.sum_cons] at hnodup
    obtain ⟨hc, -, hdisjoint⟩ := Multiset.nodup_add.mp hnodup
    have hchild : (pointers t.kids)[done.length]? = some (pointer c) := by
      rw [pointers, hcs, List.map_append, List.getElem?_append_right (by simp)]
      simp
    obtain ⟨H₁, hrun, hwithout⟩ := hdestroy H c (hst c List.mem_cons_self) hc
    have haddr : H₁.nodes t.addr = H.nodes t.addr :=
      hwithout.other _ (MTree.addr_notMem_child hroot (hmem c List.mem_cons_self))
    have hst₁ : ∀ d ∈ cs, Stored H₁ (some t.addr) d := fun d hd =>
      (hst d (List.mem_cons_of_mem _ hd)).congr fun a ha => hwithout.other a fun hac =>
        Multiset.disjoint_left.mp hdisjoint hac (MTree.mem_sum_addrs.mpr ⟨d, hd, ha⟩)
    obtain ⟨H₂, hrest, hwithout'⟩ := destroyChildren_frees hdestroy hroot cs (done ++ [c])
      (by simp [hcs]) H₁ ⟨n, haddr.trans hn, hshow⟩ hst₁
    refine ⟨H₂, ?_, hwithout.trans hwithout'⟩
    rw [List.length_append, List.length_singleton] at hrest
    rw [List.length_cons, List.range'_succ, destroyChildren, get_some hn, ok_bind,
      hshow.child_eq hchild, ok_bind, hrun, ok_bind]
    exact hrest

/-- **Destroying a tree** frees each of its nodes once, and no other. -/
theorem nodeDestroy_frees : {h : ℕ} → {p : Pointer} → {t : MTree Int64 h} → {H : Heap} →
    Stored H p t → t.addrs.Nodup → {fuel : ℕ} → h < fuel →
    ∃ H', nodeDestroy fuel H (pointer t) = .ok H' ∧ Without H H' t.addrs
  | 0, _, _, H, _, _, _ + 1, _ => ⟨H, rfl, Without.refl H⟩
  | h + 1, p, t, H, hst, hnodup, fuel + 1, hfuel => by
    obtain ⟨n, hn, hshow, -, hleaf⟩ := hst.root
    have hbelow : ∃ H₁, (if ! n.isLeaf then
        destroyChildren (nodeDestroy fuel) H t.addr (List.range (n.numKeys + 1)) else pure H) =
          .ok H₁ ∧ Without H H₁ (t.kids.children.map MTree.addrs).sum := by
      cases h with
      | zero =>
        refine ⟨H, by rw [hleaf]; rfl, ?_⟩
        have hzero : (t.kids.children.map MTree.addrs).sum = 0 := by
          refine List.sum_eq_zero fun m hm => ?_
          obtain ⟨c, -, rfl⟩ := List.mem_map.mp hm
          rfl
        rw [hzero]
        exact Without.refl H
      | succ h =>
        rw [hleaf, decide_eq_false (Nat.succ_ne_zero h), Bool.not_false, if_pos rfl, hshow.numKeys,
          ← Kids.length_children, List.range_eq_range']
        exact destroyChildren_frees (fun H' c hc hcn => nodeDestroy_frees hc hcn (by omega)) hnodup
          t.kids.children [] rfl H ⟨n, hn, hshow⟩ fun c hc => hst.child hc
    obtain ⟨H₁, hrun, hwithout⟩ := hbelow
    have haddr : H₁.nodes t.addr = some n := by
      refine (hwithout.other _ fun hmem => ?_).trans hn
      obtain ⟨c, hc, hmem⟩ := MTree.mem_sum_addrs.mp hmem
      exact MTree.addr_notMem_child hnodup hc hmem
    obtain ⟨H₂, hfree, hwithout'⟩ := free_without haddr
    refine ⟨H₂, ?_, ?_⟩
    · rw [pointer, nodeDestroy, get_some hn, ok_bind, hrun, ok_bind, hfree]
    · rw [MTree.addrs_succ, add_comm]
      exact hwithout.trans hwithout'

end MiniDB.BtreeStudy
