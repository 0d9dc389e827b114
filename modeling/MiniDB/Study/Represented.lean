import MiniDB.Study.Rippling

/-!
# The B-tree of the study

* `Represents`: **a heap holds an ordered B-tree, and nothing else**.
* `btreeInsert_represents`: **`btree_insert` inserts a key into the tree**, unless it is there.
* `growRoot_stored`: a root that was cut comes under a new one.
-/

namespace MiniDB.BtreeStudy

open BPlusTree (Kids Ins)
open BTree

variable {H H' : Heap} {p q : Pointer} {key x : Int64} {a root h : ℕ}

/-! ## A new root -/

/-- **Two trees come under a new root.** -/
theorem growRoot_stored {l right : MTree Int64 (h + 1)} (hl : Stored H p l) (hr : Stored H q right)
    (hn : (l.addrs + right.addrs).Nodup) (hlt : ∀ b ∈ l.addrs + right.addrs, b < H.next)
    (x : Int64) :
    ∃ H', growRoot H x l.addr right.addr = .ok (H.next, H') ∧ H'.next = H.next + 1 ∧
      Stored H' none (.node H.next (.cons l x (.one right))) ∧
      ∀ b, b ∉ l.addrs + right.addrs → b ≠ H.next → H'.nodes b = H.nodes b := by
  obtain ⟨hnl, hnr, hdisjoint⟩ := Multiset.nodup_add.mp hn
  have hmeml : ∀ b ∈ l.addrs, b ∈ l.addrs + right.addrs := fun b hb =>
    Multiset.mem_add.mpr (Or.inl hb)
  have hmemr : ∀ b ∈ right.addrs, b ∈ l.addrs + right.addrs := fun b hb =>
    Multiset.mem_add.mpr (Or.inr hb)
  obtain ⟨n, hget, -⟩ := hl.root
  obtain ⟨m, hgetm, -⟩ := hr.root
  obtain ⟨H', hrun, hnext, ⟨m', hget', hshow, hparent, hleaf⟩, hnodes⟩ := growRoot_eq hget hgetm
    (hlt _ (hmeml _ l.addr_mem_addrs)).ne (hlt _ (hmemr _ right.addr_mem_addrs)).ne x
  have hne : ∀ b ∈ l.addrs + right.addrs, H'.nodes b =
      adopted H H.next [some right.addr, some l.addr] b := fun b hb => hnodes b (hlt b hb).ne
  refine ⟨H', hrun, hnext, ⟨⟨m', hget', hshow, hparent, hleaf⟩, fun c hc => ?_⟩, fun b hb hbn => ?_⟩
  · rcases List.mem_cons.mp hc with rfl | hc
    · refine hl.adopted hnl (fun b hb => hne b (hmeml b hb)) fun b hb => ?_
      have hnot : b ≠ right.addr := by
        rintro rfl
        exact Multiset.disjoint_left.mp hdisjoint hb right.addr_mem_addrs
      simp [pointer, hnot, eq_comm]
    · obtain rfl := List.mem_singleton.mp hc
      refine hr.adopted hnr (fun b hb => hne b (hmemr b hb)) fun b hb => ?_
      have hnot : b ≠ l.addr := by
        rintro rfl
        exact Multiset.disjoint_left.mp hdisjoint l.addr_mem_addrs hb
      simp [pointer, hnot, eq_comm]
  · rw [hnodes b hbn, adopted_of_notMem]
    intro hmem
    rcases List.mem_cons.mp hmem with heq | hmem
    · exact hb (Option.some_inj.mp heq ▸ hmemr _ right.addr_mem_addrs)
    · exact hb (Option.some_inj.mp (List.mem_singleton.mp hmem) ▸ hmeml _ l.addr_mem_addrs)

/-! ## Trees and heaps -/

/-- **A heap holds an ordered B-tree**, and no other node. -/
structure Represents (H : Heap) (root : ℕ) (t : AnyTree Int64) : Prop where
  addr : t.2.addr = root
  stored : Stored H none t.2
  ordered : t.2.Ordered ⊥ ⊤
  sized : t.2.RootSized minKeys maxKeys
  owned : Owned H.next t.2
  only : ∀ a, a ∉ t.2.addrs → H.nodes a = none

/-- The addresses of a representing heap are those of the nodes. -/
theorem Represents.nodes_iff {t : AnyTree Int64} (hr : Represents H root t) (a : ℕ) :
    H.nodes a ≠ none ↔ a ∈ t.2.addrs := by
  refine ⟨fun hne => by_contra fun hnot => hne (hr.only a hnot), fun hmem hnone => ?_⟩
  obtain ⟨n, hn⟩ := hr.stored.exists_node a hmem
  rw [hn] at hnone
  cases hnone

/-- `btree_create` gives an empty leaf. -/
theorem represents_create (H : Heap) (hempty : ∀ a, H.nodes a = none) :
    Represents (btreeCreate H).2 (btreeCreate H).1 ⟨0, .node H.next (.one .nil)⟩ := by
  have haddrs : (MTree.node H.next (.one .nil) : MTree Int64 1).addrs = {H.next} := rfl
  refine ⟨rfl, ⟨⟨_, Function.update_self .., ⟨⟨rfl, List.nil_prefix, ⟨_, rfl⟩, rfl, rfl, rfl⟩, rfl,
    rfl⟩⟩, fun _ _ => trivial⟩, trivial, ⟨fun h => absurd rfl h, Nat.zero_le _, fun _ _ => trivial⟩,
    ⟨?_, fun b hb => ?_⟩, fun a ha => ?_⟩
  · exact Multiset.nodup_singleton _
  · obtain rfl := Multiset.mem_singleton.mp hb
    exact Nat.lt_succ_self _
  · have hne : a ≠ H.next := fun h => ha (Multiset.mem_singleton.mpr h)
    exact (Function.update_of_ne hne ..).trans (hempty a)

/-- **Behind a new root**, or behind the old one, the whole tree is on the heap. -/
theorem ripple_root {t : MTree Int64 (h + 1)} (hown : Owned H.next t)
    (hre : Rebuilt H H' none key t)
    (fuel : ℕ) : ∃ root' H'', ripple (fuel + 1) H' t.addr t.addr = .ok (root', H'') ∧
      (insertRoot maxKeys key ⟨h, t⟩ H.next).1.2.addr = root' ∧
      Stored H'' none (insertRoot maxKeys key ⟨h, t⟩ H.next).1.2 ∧
      H''.next = (insertRoot maxKeys key ⟨h, t⟩ H.next).2 ∧
      ∀ b, b ∉ t.addrs → b < H.next ∨ H''.next ≤ b → H''.nodes b = H.nodes b := by
  obtain ⟨hnext, haddrs⟩ := addrs_insertBelow maxKeys key t H.next
  have hownBelow := hown.add hnext haddrs
  have hripple := ripple_eq hre.stored (fuel + 1) t.addr
  have hstored := hre.stored
  have hfresh := hre.next
  have hinsert : insertRoot maxKeys key ⟨h, t⟩ H.next =
      grow (close maxKeys t.addr (insertBelow maxKeys key t H.next).2
        (insertBelow maxKeys key t H.next).1) := rfl
  rw [MTree.addr_node, MTree.kids_node] at hripple
  rw [hripple]
  rw [← hre.next] at hownBelow hinsert
  rcases close_cases maxKeys t.addr H'.next (insertBelow maxKeys key t H.next).1 with
    ⟨hfits, heq⟩ | ⟨hfull, l, x, r, -, hk, hlen, heq⟩
  · rw [hinsert, heq]
    exact ⟨t.addr, H', if_neg (not_lt.mpr hfits), rfl, hstored, rfl, hre.other⟩
  · rw [hk] at hstored hownBelow hlen
    rw [hinsert, heq]
    obtain ⟨H₁, hbuild, hnext₁, hleft, hright, hother₁⟩ :=
      buildSibling_stored hstored hlen.symm hownBelow.nodup hownBelow.lt
    have hboth := addrs_halves t.addr H'.next l r x
    rw [hk, hre.next.symm] at haddrs
    have hmem : ∀ b, b ∈ (MTree.node t.addr l).addrs + (MTree.node H'.next r).addrs →
        b ∈ t.addrs ∨ H.next ≤ b ∧ b < H'.next + 1 := fun b hb => by
      rw [hboth, haddrs, Multiset.mem_add, Multiset.mem_add, BPlusTree.mem_newLabels,
        Multiset.mem_singleton] at hb
      rcases hb with (hb | hb) | hb
      · exact Or.inl hb
      · exact Or.inr ⟨hb.1, by omega⟩
      · exact Or.inr ⟨by omega, by omega⟩
    have hn : ((MTree.node t.addr l).addrs + (MTree.node H'.next r).addrs).Nodup := by
      rw [hboth]
      refine Multiset.nodup_add.mpr ⟨hownBelow.nodup, Multiset.nodup_singleton _, ?_⟩
      exact Multiset.disjoint_singleton.mpr fun hb => (hownBelow.lt _ hb).ne rfl
    have hlt : ∀ b ∈ (MTree.node t.addr l).addrs + (MTree.node H'.next r).addrs, b < H₁.next :=
      fun b hb => by
        rw [hnext₁]
        rcases hmem b hb with hb | hb
        · exact (hown.lt b hb).trans_le (by omega)
        · exact hb.2
    obtain ⟨H₂, hgrow, hnext₂, hst₂, hother₂⟩ := growRoot_stored hleft hright hn hlt x
    rw [MTree.addr_node, MTree.addr_node] at hgrow
    rw [hnext₁] at hgrow hnext₂ hst₂ hother₂
    refine ⟨H'.next + 1, H₂, ?_, rfl, hst₂, hnext₂, fun b hb hb' => ?_⟩
    · rw [if_pos hfull, split, hbuild, ok_bind]
      exact hgrow
    · rw [hnext₂] at hb'
      have hbelow : b ∉ (MTree.node t.addr (l.append x r)).addrs := fun hb'' => by
        rw [haddrs, Multiset.mem_add, BPlusTree.mem_newLabels] at hb''
        exact hb''.elim hb (by omega)
      rw [hother₂ b (fun hb'' => (hmem b hb'').elim hb (by omega)) (by omega),
        hother₁ b hbelow (by omega), hre.other b hb (by omega)]

/-- **`btree_insert` inserts a key into the tree**, unless it is there. -/
theorem btreeInsert_represents {t : AnyTree Int64} (hr : Represents H root t) {fuel : ℕ}
    (hfuel : t.1 < fuel) (key : Int64) :
    ∃ root' H', btreeInsert fuel H root key = .ok (root', H') ∧ Represents H' root'
      (if key ∈ t.2.keys then t else (insertRoot maxKeys key t H.next).1) := by
  obtain ⟨h, t⟩ := t
  obtain ⟨rfl, hst, hord, hsized, hown, honly⟩ := hr
  dsimp only at *
  by_cases hkey : key ∈ t.keys
  · rw [if_pos hkey]
    refine ⟨t.addr, H, ?_, rfl, hst, hord, hsized, hown, honly⟩
    rw [btreeInsert, descendToLeaf_contains hst hord hkey hfuel]
    rfl
  · rw [if_neg hkey]
    have hhalf : minKeys = maxKeys / 2 := rfl
    obtain ⟨fuel', rfl⟩ : ∃ fuel', fuel = fuel' + 1 + h := ⟨fuel - 1 - h, by omega⟩
    obtain ⟨leaf, H₀, H₁, hdescend, hrun, hripple, hre⟩ := exists_rebuilt hst hord
      (WithBot.bot_lt_coe key) (WithTop.coe_lt_top key) hkey hsized.le hsized.below hown hfuel
      (fuel' + 1) t.addr
    obtain ⟨root', H', hroot, haddr, hst', hnext', hother⟩ := ripple_root hown hre fuel'
    obtain ⟨hle, haddrs⟩ := addrs_insertRoot maxKeys key ⟨h, t⟩ H.next
    have hown' := hown.add hle haddrs
    rw [← hnext'] at hown' haddrs
    refine ⟨root', H', ?_, haddr, hst', ordered_insertRoot hord hkey _,
      sized_insertRoot hhalf (by decide) hsized _, hown', fun a ha => ?_⟩
    · rw [btreeInsert, hdescend, ok_bind]
      dsimp only
      rw [hrun, ok_bind]
      exact hripple.trans hroot
    · rw [haddrs, Multiset.mem_add, BPlusTree.mem_newLabels, not_or] at ha
      rw [hother a ha.1 (by omega)]
      exact honly a ha.1

end MiniDB.BtreeStudy
