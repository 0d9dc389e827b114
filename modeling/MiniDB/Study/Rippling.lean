import MiniDB.Study.Placing

/-!
# Insertion

The descent to a leaf, and the cutting that ripples back along the parents.

* `descendToLeaf_contains`: **on a duplicate nothing is assigned**.
* `exists_rebuilt`: **behind the ripple, a tree is on the heap with the key in it**.
-/

namespace MiniDB.BtreeStudy

open BPlusTree (Kids Ins)
open BTree

variable {H H' : Heap} {n : BTreeNode} {ks : List Int64} {cs : List Pointer} {p : Pointer}
  {key x : Int64} {a h : ℕ} {lo : WithBot Int64} {hi : WithTop Int64}

/-! ## The descent -/

/-- The scan inside an inner node: it stops on a duplicate. -/
theorem scanInner_eq (key : Int64) (hn : Shows n ks cs) (hks : ks.Pairwise (· < ·)) :
    (left i : ℕ) → i + left = ks.length → scanInner n key left i =
      .ok (if key ∈ ks.drop i then none else some (i + ((ks.drop i).takeWhile (· < key)).length))
  | 0, i, hi => by
    rw [List.drop_of_length_le (by omega)]
    rfl
  | left + 1, i, hi => by
    have hlt : i < ks.length := by omega
    have hrest : ∀ y ∈ ks.drop (i + 1), ks[i] < y := by
      have hdrop := hks.drop (i := i)
      rw [List.drop_eq_getElem_cons hlt] at hdrop
      exact (List.pairwise_cons.mp hdrop).1
    rw [scanInner, hn.key_eq (List.getElem?_eq_getElem hlt), ok_bind, List.drop_eq_getElem_cons hlt]
    rcases lt_trichotomy ks[i] key with hless | heq | hgreater
    · have hiff : key ∈ ks[i] :: ks.drop (i + 1) ↔ key ∈ ks.drop (i + 1) := by
        rw [List.mem_cons, or_iff_right hless.ne']
      rw [if_pos hless, if_neg hless.ne, scanInner_eq key hn hks left (i + 1) (by omega),
        if_congr hiff rfl rfl, List.takeWhile_cons_of_pos (by simpa using hless), List.length_cons]
      congr 3
      omega
    · rw [heq, if_neg (lt_irrefl key), if_pos rfl, if_pos List.mem_cons_self]
      rfl
    · have hnot : key ∉ ks[i] :: ks.drop (i + 1) := by
        rw [List.mem_cons, not_or]
        exact ⟨hgreater.ne, fun hmem => lt_asymm hgreater (hrest key hmem)⟩
      rw [if_neg hgreater.not_gt, if_neg hgreater.ne', if_neg hnot,
        List.takeWhile_cons_of_neg (by simpa using hgreater.le)]
      rfl

/-- The loop over the keys of a leaf. -/
theorem hasKey_eq (key : Int64) (hn : Shows n ks cs) : (left i : ℕ) → i + left = ks.length →
    hasKey n key (List.range' i left) = .ok (decide (key ∈ ks.drop i))
  | 0, i, hi => by
    rw [List.drop_of_length_le (by omega)]
    rfl
  | left + 1, i, hi => by
    have hlt : i < ks.length := by omega
    rw [List.range'_succ, hasKey, hn.key_eq (List.getElem?_eq_getElem hlt), ok_bind,
      List.drop_eq_getElem_cons hlt]
    by_cases heq : ks[i] = key
    · rw [if_pos heq, heq, decide_eq_true List.mem_cons_self]
      rfl
    · rw [if_neg heq, hasKey_eq key hn left (i + 1) (by omega)]
      congr 1
      rw [decide_eq_decide, List.mem_cons, or_iff_right (fun h => heq h.symm)]

/-- The descent at a leaf. -/
theorem descendToLeaf_leaf {t : MTree Int64 1} (hst : Stored H p t) (fuel : ℕ) (key : Int64) :
    descendToLeaf (fuel + 1) H (some t.addr) key =
      .ok (if key ∈ t.kids.seps then none else some t.addr) := by
  obtain ⟨n, hget, hshow, -, hleaf⟩ := hst.root
  have hscan := hasKey_eq key hshow t.kids.seps.length 0 (Nat.zero_add _)
  rw [← List.range_eq_range', List.drop_zero] at hscan
  rw [descendToLeaf, get_some hget, ok_bind, hleaf, decide_eq_true rfl, if_pos rfl, hshow.numKeys,
    hscan, ok_bind]
  by_cases hkey : key ∈ t.kids.seps
  · rw [if_pos hkey, decide_eq_true hkey]
    rfl
  · rw [if_neg hkey, decide_eq_false hkey]
    rfl

/-- The descent at an inner node. -/
theorem descendToLeaf_node {t : MTree Int64 (h + 2)} (hst : Stored H p t) (hord : t.Ordered lo hi)
    (fuel : ℕ) (key : Int64) :
    descendToLeaf (fuel + 1) H (some t.addr) key =
      if key ∈ t.kids.seps then .ok none
      else descendToLeaf fuel H (some (t.kids.pick key).addr) key := by
  obtain ⟨n, hget, hshow, -, hleaf⟩ := hst.root
  have hscan := scanInner_eq key hshow (pairwise_seps hord) t.kids.seps.length 0 (Nat.zero_add _)
  rw [List.drop_zero, Nat.zero_add] at hscan
  rw [descendToLeaf, get_some hget, ok_bind, hleaf, decide_eq_false (Nat.succ_ne_zero h),
    if_neg (by decide), hshow.numKeys, hscan, ok_bind]
  by_cases hkey : key ∈ t.kids.seps
  · rw [if_pos hkey, if_pos hkey]
    rfl
  · rw [if_neg hkey, if_neg hkey]
    dsimp only
    rw [index_eq_takeWhile hkey, hshow.child_eq (getElem?_pointers key t.kids), ok_bind]
    rfl

/-- **On a duplicate** the descent ends with nothing. -/
theorem descendToLeaf_contains : {h : ℕ} → {t : MTree Int64 (h + 1)} → {p : Pointer} →
    {lo : WithBot Int64} → {hi : WithTop Int64} → Stored H p t → t.Ordered lo hi → key ∈ t.keys →
    {fuel : ℕ} → h < fuel → descendToLeaf fuel H (some t.addr) key = .ok none
  | 0, t, _, _, _, hst, hord, hkey, fuel + 1, _ => by
    rw [MTree.keys_succ,
      mem_inorder_pick (fun _ _ _ hc => MTree.Ordered.between_keys hc) hord] at hkey
    rw [descendToLeaf_leaf hst, if_pos (hkey.resolve_right List.not_mem_nil)]
  | h + 1, t, _, _, _, hst, hord, hkey, fuel + 1, hfuel => by
    rw [MTree.keys_succ,
      mem_inorder_pick (fun _ _ _ hc => MTree.Ordered.between_keys hc) hord] at hkey
    rw [descendToLeaf_node hst hord]
    by_cases hsep : key ∈ t.kids.seps
    · exact if_pos hsep
    · rw [if_neg hsep]
      obtain ⟨lo', hi', hpick⟩ := ordered_pick hord key
      exact descendToLeaf_contains (hst.child (Kids.pick_mem_children key t.kids)) hpick
        (hkey.resolve_left hsep) (by omega)

/-! ## The ripple -/

/-- What `btree_insert` and `split` do behind an insertion into a node. -/
def ripple (fuel : ℕ) (H : Heap) (root a : ℕ) : Run (ℕ × Heap) := do
  let n ← H.get (some a)
  if maxKeys < n.numKeys then split fuel H root a else return (root, H)

theorem ripple_eq {t : MTree Int64 (h + 1)} (hst : Stored H p t) (fuel root : ℕ) :
    ripple fuel H root t.addr =
      if maxKeys < t.kids.seps.length then split fuel H root t.addr else .ok (root, H) := by
  obtain ⟨n, hget, hshow, -, -⟩ := hst.root
  rw [ripple, get_some hget, ok_bind, hshow.numKeys]
  rfl

/-- The addresses of a tree differ, and were all handed out. -/
structure Owned (next : ℕ) {h : ℕ} (t : MTree Int64 h) : Prop where
  nodup : t.addrs.Nodup
  lt : ∀ b ∈ t.addrs, b < next

theorem Owned.child {next : ℕ} {t : MTree Int64 (h + 1)} (ht : Owned next t) {c : MTree Int64 h}
    (hc : c ∈ t.kids.children) : Owned next c :=
  ⟨Multiset.nodup_of_le (MTree.addrs_le_of_mem hc) ht.nodup,
    fun b hb => ht.lt b (Multiset.mem_of_le (MTree.addrs_le_of_mem hc) hb)⟩

/-- New addresses come to the others. -/
theorem Owned.add {next next' h' : ℕ} {t : MTree Int64 h} {t' : MTree Int64 h'} (ht : Owned next t)
    (hle : next ≤ next') (haddrs : t'.addrs = t.addrs + BPlusTree.newLabels next next') :
    Owned next' t' := by
  refine ⟨?_, fun b hb => ?_⟩
  · rw [haddrs]
    refine Multiset.nodup_add.mpr ⟨ht.nodup, BPlusTree.nodup_newLabels _ _, ?_⟩
    exact Multiset.disjoint_left.mpr fun hb hb' =>
      absurd (BPlusTree.mem_newLabels.mp hb').1 (not_le.mpr (ht.lt _ hb))
  · rw [haddrs, Multiset.mem_add] at hb
    rcases hb with hb | hb
    · exact (ht.lt b hb).trans_le hle
    · exact (BPlusTree.mem_newLabels.mp hb).2

/-- The heap behind an insertion below a node. -/
structure Rebuilt (H H' : Heap) (p : Pointer) (key : Int64) {h : ℕ} (t : MTree Int64 (h + 1)) :
    Prop where
  stored : Stored H' p (.node t.addr (insertBelow maxKeys key t H.next).1)
  next : H'.next = (insertBelow maxKeys key t H.next).2
  other : ∀ b, b ∉ t.addrs → b < H.next ∨ H'.next ≤ b → H'.nodes b = H.nodes b

/-- The range of the picked child lies around the key, and between its neighbours. -/
theorem pick_around {t : MTree Int64 (h + 1)} (hord : t.Ordered lo hi) (hlo : lo < key)
    (hhi : (key : WithTop Int64) < hi) (hkey : key ∉ t.keys) :
    key ∉ t.kids.seps ∧ key ∉ (t.kids.pick key).keys ∧
      ∃ lo' hi', (t.kids.pick key).Ordered lo' hi' ∧
      lo' < key ∧ (key : WithTop Int64) < hi' ∧
      (∀ s ∈ t.kids.seps.take (t.kids.index key), (s : WithBot Int64) ≤ lo') ∧
      ∀ s ∈ t.kids.seps.drop (t.kids.index key), hi' ≤ s := by
  rw [MTree.keys_succ, mem_inorder_pick (fun _ _ _ hc => MTree.Ordered.between_keys hc) hord,
    not_or] at hkey
  obtain ⟨-, -, hbelow, hleft, hright⟩ := Kids.Ordered.bounds_around hord hlo.le hhi
  exact ⟨hkey.1, hkey.2, _, _, Kids.Ordered.pick_bounds hord key, bounds_lt hlo hkey.1, hbelow,
    hleft, hright⟩

/-- An insertion below a node does not touch the node itself, nor its other children. -/
theorem Rebuilt.untouched {t : MTree Int64 (h + 2)} (hst : Stored H p t) (hown : Owned H.next t)
    (hre : Rebuilt H H' (some t.addr) key (t.kids.pick key)) :
    (∃ n, H'.nodes t.addr = some n ∧ ShowsRoot n p t) ∧
      ∀ c ∈ t.kids.others key, Stored H' (some t.addr) c := by
  have hperm := Kids.children_perm key t.kids
  have hn := hown.nodup
  rw [MTree.addrs_perm hperm] at hn
  obtain ⟨-, hbelow, -⟩ := Multiset.nodup_add.mp hn
  obtain ⟨-, -, hdisjoint⟩ := Multiset.nodup_add.mp hbelow
  refine ⟨?_, fun c hc => ?_⟩
  · rw [hre.other _ (MTree.addr_notMem_child hown.nodup (Kids.pick_mem_children key t.kids))
      (Or.inl (hown.lt _ t.addr_mem_addrs))]
    exact hst.root
  · have hmem : c ∈ t.kids.children := hperm.mem_iff.mpr (List.mem_cons_of_mem _ hc)
    refine (hst.child hmem).congr fun b hb => hre.other b (fun hb' => ?_)
      (Or.inl ((hown.child hmem).lt b hb))
    exact Multiset.disjoint_left.mp hdisjoint hb' (MTree.mem_sum_addrs.mpr ⟨c, hc, hb⟩)

/-- At a leaf, the key comes between two nothings. -/
theorem rebuilt_leaf {t : MTree Int64 1} (hst : Stored H p t) (hord : t.Ordered lo hi)
    (hle : t.kids.seps.length ≤ maxKeys) (hown : Owned H.next t) (key : Int64) :
    ∃ H', nodeInsertAt H t.addr key none = .ok H' ∧ Rebuilt H H' p key t := by
  obtain ⟨hbefore, hafter⟩ := index_spec (pairwise_seps hord) key
  obtain ⟨hnext, haddrs⟩ := addrs_insertBelow maxKeys key t H.next
  obtain ⟨H', hrun, hnext', hst', hother⟩ := nodeInsertAt_stored (q := none) .nil .nil
    hst.root hle hbefore hafter rfl trivial trivial (fun _ _ => trivial)
      (hown.add hnext haddrs).nodup
  refine ⟨H', hrun, hst', hnext', fun b hb hb' => hother b fun hmem => ?_⟩
  rw [hnext'] at hb'
  have hmem' : b ∈ t.addrs + BPlusTree.newLabels H.next H.next := haddrs ▸ hmem
  rw [BPlusTree.newLabels_self, add_zero] at hmem'
  exact hb hmem'

/-- A child that was not cut takes the place of the old one. -/
theorem stored_place_one {t : MTree Int64 (h + 2)} {k : Kids Int64 (MTree Int64 h)}
    (hroot : ∃ n, H.nodes t.addr = some n ∧ ShowsRoot n p t)
    (hothers : ∀ c ∈ t.kids.others key, Stored H (some t.addr) c)
    (hst : Stored H (some t.addr) (.node (t.kids.pick key).addr k)) :
    Stored H p (.node t.addr (t.kids.place key (.one (.node (t.kids.pick key).addr k)))) := by
  obtain ⟨n, hget, hshow, hparent, hleaf⟩ := hroot
  have hsame : pointer (MTree.node (t.kids.pick key).addr k) = pointer (t.kids.pick key) := rfl
  obtain ⟨hchildren, hseps⟩ := Kids.lists_place_one hsame
  refine ⟨⟨n, hget, ?_, hparent, hleaf⟩, fun c hc => ?_⟩
  · rw [MTree.kids_node, hseps, pointers, hchildren]
    exact hshow
  · rcases List.mem_cons.mp ((Kids.children_place_perm key t.kids _).mem_iff.mp hc) with rfl | hc
    · exact hst
    · exact hothers c hc

/-- **A child is cut**, and the middle key goes up. -/
theorem split_stored {t : MTree Int64 (h + 2)} {l right : Kids Int64 (MTree Int64 h)}
    {k : Kids Int64 (MTree Int64 (h + 1))}
    (hk : k = t.kids.place key
      (.cons (.node (t.kids.pick key).addr l) x (.one (.node H.next right))))
    (hroot : ∃ n, H.nodes t.addr = some n ∧ ShowsRoot n p t)
    (hothers : ∀ c ∈ t.kids.others key, Stored H (some t.addr) c)
    (hst : Stored H (some t.addr) (.node (t.kids.pick key).addr (l.append x right)))
    (hmid : (l.append x right).seps.length / 2 = l.seps.length)
    (hown : Owned H.next (.node (t.kids.pick key).addr (l.append x right)))
    (hroom : t.kids.seps.length ≤ maxKeys)
    (hbefore : ∀ y ∈ t.kids.seps.take (t.kids.index key), y ≤ x)
    (hafter : ∀ y ∈ t.kids.seps.drop (t.kids.index key), x < y)
    (hn : (MTree.node t.addr k).addrs.Nodup) (fuel root : ℕ) :
    ∃ H', split (fuel + 1) H root (t.kids.pick key).addr = ripple fuel H' root t.addr ∧
      H'.next = H.next + 1 ∧ Stored H' p (.node t.addr k) ∧
      ∀ b, b ∉ (MTree.node t.addr k).addrs → H'.nodes b = H.nodes b := by
  obtain ⟨H₁, hbuild, hnext₁, hleft, hright, hother₁⟩ :=
    buildSibling_stored hst hmid hown.nodup hown.lt
  -- what is cut has nothing in common with the node and its other children
  have haddrs : (MTree.node t.addr k).addrs = {t.addr} +
      (((MTree.node (t.kids.pick key).addr (l.append x right)).addrs + {H.next}) +
        ((t.kids.others key).map MTree.addrs).sum) := by
    rw [← addrs_halves, MTree.addrs_succ, MTree.addr_node, MTree.kids_node, hk,
      ((Kids.children_place_perm key t.kids _).map MTree.addrs).sum_eq, List.map_append,
      List.sum_append]
    simp
  have hkeep : ∀ b, b ∉ (MTree.node (t.kids.pick key).addr (l.append x right)).addrs + {H.next} →
      H₁.nodes b = H.nodes b := fun b hb => by
    rw [Multiset.mem_add, Multiset.mem_singleton, not_or] at hb
    exact hother₁ b hb.1 hb.2
  have hdisjoint := hn
  rw [haddrs] at hdisjoint
  obtain ⟨-, hbelow, hroot'⟩ := Multiset.nodup_add.mp hdisjoint
  obtain ⟨-, -, hdisjoint⟩ := Multiset.nodup_add.mp hbelow
  have hroot₁ : ∃ n, H₁.nodes t.addr = some n ∧ ShowsRoot n p t := by
    rw [hkeep _ fun hmem => Multiset.disjoint_left.mp hroot' (Multiset.mem_singleton_self _)
      (Multiset.mem_add.mpr (Or.inl hmem))]
    exact hroot
  have hothers₁ : ∀ c ∈ t.kids.others key, Stored H₁ (some t.addr) c := fun c hc =>
    (hothers c hc).congr fun b hb => hkeep b fun hmem =>
      Multiset.disjoint_left.mp hdisjoint hmem (MTree.mem_sum_addrs.mpr ⟨c, hc, hb⟩)
  rw [hk] at hn
  obtain ⟨H₂, hinsert, hnext₂, hst₂, hother₂⟩ :=
    nodeInsertAt_stored (.node (t.kids.pick key).addr l)
      (.node H.next right) hroot₁ hroom hbefore hafter
      rfl hleft hright hothers₁ hn
  rw [← hk] at hst₂ hother₂
  refine ⟨H₂, ?_, hnext₂.trans hnext₁, hst₂, fun b hb => ?_⟩
  · rw [split, hbuild, ok_bind]
    dsimp only
    rw [pointer, MTree.addr_node] at hinsert
    rw [hinsert, ok_bind]
    rfl
  · rw [hother₂ b hb]
    refine hkeep b fun hmem => hb ?_
    rw [haddrs]
    exact Multiset.mem_add.mpr (Or.inr (Multiset.mem_add.mpr (Or.inl hmem)))

/-- **One step of the ripple**: what was inserted below a node reaches the node. -/
theorem rebuilt_node {t : MTree Int64 (h + 2)} (hst : Stored H p t) (hord : t.Ordered lo hi)
    (hlo : lo < key) (hhi : (key : WithTop Int64) < hi) (hkey : key ∉ t.keys)
    (hle : t.kids.seps.length ≤ maxKeys) (hown : Owned H.next t)
    (hre : Rebuilt H H' (some t.addr) key (t.kids.pick key)) (fuel root : ℕ) :
    ∃ H'', ripple (fuel + 1) H' root (t.kids.pick key).addr = ripple fuel H'' root t.addr ∧
      Rebuilt H H'' p key t := by
  obtain ⟨hroot, hothers⟩ := hre.untouched hst hown
  obtain ⟨-, hnot, lo', hi', hpick, hlo', hhi', hbefore, hafter⟩ := pick_around hord hlo hhi hkey
  have hpickmem := Kids.pick_mem_children key t.kids
  obtain ⟨hnext, haddrs⟩ := addrs_insertBelow maxKeys key (t.kids.pick key) H.next
  have hownBelow := (hown.child hpickmem).add hnext haddrs
  obtain ⟨hnext', haddrs'⟩ := addrs_insertBelow maxKeys key t H.next
  have hownAll := hown.add hnext' haddrs'
  have hnew : (insert maxKeys key (t.kids.pick key) H.next).1.kids.Ordered
      (fun lo hi c => c.Ordered lo hi) lo' hi' := ordered_insert hpick hlo' hhi' hnot H.next
  have hripple := ripple_eq hre.stored (fuel + 1) root
  have hbelow : insertBelow maxKeys key t H.next =
      (t.kids.place key (insert maxKeys key (t.kids.pick key) H.next).1.kids,
        (insert maxKeys key (t.kids.pick key) H.next).2) := rfl
  rw [insert_succ, ← hre.next] at hnew hbelow
  rw [← hre.next] at hownBelow
  rw [MTree.addr_node, MTree.kids_node] at hripple
  rw [hripple]
  have hstored := hre.stored
  rcases close_cases maxKeys (t.kids.pick key).addr H'.next
    (insertBelow maxKeys key (t.kids.pick key) H.next).1 with
    ⟨hfits, heq⟩ | ⟨hfull, l, x, r, -, hk, hlen, heq⟩
  · -- the child is not cut
    rw [heq] at hbelow
    have hst' := stored_place_one hroot hothers hstored
    refine ⟨H', ?_, ⟨?_, ?_, ?_⟩⟩
    · have hsame : pointer (MTree.node (t.kids.pick key).addr
          (insertBelow maxKeys key (t.kids.pick key) H.next).1) = pointer (t.kids.pick key) := rfl
      have hripple' := ripple_eq hst' fuel root
      rw [MTree.addr_node, MTree.kids_node, (Kids.lists_place_one hsame).2, if_neg (not_lt.mpr hle)]
        at hripple'
      rw [if_neg (not_lt.mpr hfits), hripple']
    · rw [hbelow]
      exact hst'
    · rw [hbelow]
    · intro b hb hb'
      refine hre.other b (fun hmem => hb ?_) hb'
      exact Multiset.mem_of_le (MTree.addrs_le_of_mem hpickmem) hmem
  · rw [heq] at hnew hbelow
    obtain ⟨hxlo, hxhi, -, -⟩ := hnew
    rw [hk] at hstored hownBelow hlen
    rw [hbelow] at hownAll haddrs'
    dsimp only at haddrs'
    obtain ⟨H'', hsplit, hnext'', hst'', hother''⟩ :=
      split_stored rfl hroot hothers hstored hlen.symm
      hownBelow hle (fun y hy => WithBot.coe_le_coe.mp ((hbefore y hy).trans hxlo.le))
      (fun y hy => WithTop.coe_lt_coe.mp (hxhi.trans_le (hafter y hy))) hownAll.nodup fuel root
    refine ⟨H'', by rw [if_pos hfull, hsplit], ⟨?_, ?_, ?_⟩⟩
    · rw [hbelow]
      exact hst''
    · rw [hbelow]
      exact hnext''
    · intro b hb hb'
      rw [hnext''] at hb'
      have hfresh := hre.next
      rw [hother'' b, hre.other b (fun hmem => hb ?_) (by omega)]
      · exact Multiset.mem_of_le (MTree.addrs_le_of_mem hpickmem) hmem
      · intro hmem
        have hmem' := haddrs' ▸ hmem
        rw [Multiset.mem_add, BPlusTree.mem_newLabels] at hmem'
        exact hmem'.elim hb (by omega)

/-- **Behind the ripple, the key is in the tree.**  The induction is on the height: the descent goes
down to a leaf, and the ripple comes back. -/
theorem exists_rebuilt :
    {h : ℕ} → {t : MTree Int64 (h + 1)} → {p : Pointer} → {lo : WithBot Int64} →
    {hi : WithTop Int64} → Stored H p t → t.Ordered lo hi → lo < key → (key : WithTop Int64) < hi →
    key ∉ t.keys → t.kids.seps.length ≤ maxKeys → (∀ c ∈ t.kids.children, c.Sized minKeys maxKeys) →
    Owned H.next t → {depth : ℕ} → h < depth → (fuel root : ℕ) →
    ∃ leaf H₀ H', descendToLeaf depth H (some t.addr) key = .ok (some leaf) ∧
      nodeInsertAt H leaf key none = .ok H₀ ∧
      ripple (fuel + h) H₀ root leaf = ripple fuel H' root t.addr ∧ Rebuilt H H' p key t
  | 0, t, _, _, _, hst, hord, hlo, hhi, hkey, hle, _, hown, depth + 1, _, fuel, root => by
    obtain ⟨hsep, -⟩ := pick_around hord hlo hhi hkey
    obtain ⟨H', hrun, hre⟩ := rebuilt_leaf hst hord hle hown key
    refine ⟨t.addr, H', H', ?_, hrun, rfl, hre⟩
    rw [descendToLeaf_leaf hst, if_neg hsep]
  | h + 1, t, _, _, _, hst, hord, hlo, hhi, hkey, hle, hsized, hown, depth + 1, hdepth,
    fuel, root => by
    obtain ⟨hsep, hnot, lo', hi', hpick, hlo', hhi', -, -⟩ := pick_around hord hlo hhi hkey
    have hmem := Kids.pick_mem_children key t.kids
    obtain ⟨-, hle', hsized'⟩ := hsized _ hmem
    obtain ⟨leaf, H₀, H₁, hdescend, hrun, hripple, hre⟩ :=
      exists_rebuilt (hst.child hmem) hpick hlo' hhi'
      hnot hle' hsized' (hown.child hmem) (Nat.lt_of_succ_lt_succ hdepth) (fuel + 1) root
    obtain ⟨H', hstep, hre'⟩ := rebuilt_node hst hord hlo hhi hkey hle hown hre fuel root
    refine ⟨leaf, H₀, H', ?_, hrun, ?_, hre'⟩
    · rw [descendToLeaf_node hst hord, if_neg hsep, hdescend]
    · rw [← hstep, ← hripple, Nat.add_right_comm, Nat.add_assoc]

end MiniDB.BtreeStudy
