import MiniDB.Study.Splitting

/-!
# Nodes of trees on the heap

What inserting into a node and cutting a node do to a tree on the heap.

* `Stored.adopted`: a tree under another parent.
* `nodeInsertAt_stored`: **a child is replaced by two**.
* `buildSibling_stored`: **an overflown tree becomes two**.
-/

namespace MiniDB.BtreeStudy

open BPlusTree (Kids)
open BTree

variable {H H' : Heap} {p q : Pointer} {key x : Int64} {a b r h : ℕ}

theorem mem_addrs_of_pointer : {h : ℕ} → {t : MTree Int64 h} → pointer t = some b → b ∈ t.addrs
  | 0, _, hb => by cases hb
  | _ + 1, t, hb => Option.some_inj.mp hb ▸ t.addr_mem_addrs

theorem mem_pointers {k : Kids Int64 (MTree Int64 h)} (hb : some b ∈ pointers k) :
    ∃ c ∈ k.children, pointer c = some b := List.mem_map.mp hb

/-- Where a pointer to one of some trees leads. -/
theorem mem_map_pointer_iff {c : MTree Int64 h} : {cs : List (MTree Int64 h)} →
    (cs.map MTree.addrs).sum.Nodup → c ∈ cs → b ∈ c.addrs →
    (some b ∈ cs.map pointer ↔ pointer c = some b)
  | d :: cs, hn, hc, hb => by
    rw [List.map_cons, List.sum_cons] at hn
    obtain ⟨-, hn', hdisjoint⟩ := Multiset.nodup_add.mp hn
    have hnot : b ∈ d.addrs → b ∉ (cs.map MTree.addrs).sum := Multiset.disjoint_left.mp hdisjoint
    rw [List.map_cons, List.mem_cons]
    rcases List.mem_cons.mp hc with rfl | hc
    · refine ⟨fun h => h.elim Eq.symm fun h => ?_, fun h => Or.inl h.symm⟩
      obtain ⟨e, he, hbe⟩ := List.mem_map.mp h
      exact absurd (MTree.mem_sum_addrs.mpr ⟨e, he, mem_addrs_of_pointer hbe⟩) (hnot hb)
    · rw [mem_map_pointer_iff hn' hc hb]
      refine ⟨fun h => h.elim (fun h => ?_) id, Or.inr⟩
      exact absurd (MTree.mem_sum_addrs.mpr ⟨c, hc, hb⟩) (hnot (mem_addrs_of_pointer h.symm))

/-- The nodes below are not the node itself, and not unused. -/
theorem Stored.pointers_ok {t : MTree Int64 (h + 1)} (hst : Stored H p t) (hn : t.addrs.Nodup)
    {c : MTree Int64 h} (hc : c ∈ t.kids.children) (hb : pointer c = some b) :
    b ≠ t.addr ∧ b ∈ t.addrs ∧ ∃ l, H.nodes b = some l := by
  have hmem := mem_addrs_of_pointer hb
  refine ⟨?_, Multiset.mem_of_le (MTree.addrs_le_of_mem hc) hmem, (hst.child hc).exists_node b hmem⟩
  rintro rfl
  exact MTree.addr_notMem_child hn hc hmem

/-- **A tree under another parent.** -/
theorem Stored.adopted {ds : List Pointer} : {h : ℕ} → {t : MTree Int64 h} → Stored H p t →
    t.addrs.Nodup → (∀ b ∈ t.addrs, H'.nodes b = adopted H r ds b) →
    (∀ b ∈ t.addrs, some b ∈ ds ↔ pointer t = some b) → Stored H' (some r) t
  | 0, _, _, _, _, _ => trivial
  | _ + 1, t, hst, hn, hnodes, hds => by
    obtain ⟨n, hroot, hshow, -, hleaf⟩ := hst.root
    refine ⟨⟨{ n with parent := some r }, ?_, ?_, rfl, hleaf⟩, fun c hc => ?_⟩
    · rw [hnodes _ t.addr_mem_addrs, BtreeStudy.adopted, if_pos ((hds _ t.addr_mem_addrs).mpr rfl),
        hroot]
      rfl
    · exact ⟨hshow.numKeys, hshow.keys, hshow.children, hshow.keySlots, hshow.childSlots,
        hshow.arity⟩
    · refine (hst.child hc).congr fun b hb => ?_
      have hmem := Multiset.mem_of_le (MTree.addrs_le_of_mem hc) hb
      rw [hnodes b hmem, adopted_of_notMem]
      intro hbd
      have hroot' : t.addr = b := Option.some_inj.mp ((hds b hmem).mp hbd)
      exact MTree.addr_notMem_child hn hc (hroot' ▸ hb)

/-! ## A child is replaced by two -/

/-- **A child is replaced by two**, with a key in between. -/
theorem nodeInsertAt_stored {t : MTree Int64 (h + 1)} (l right : MTree Int64 h)
    (hroot : ∃ n, H.nodes t.addr = some n ∧ ShowsRoot n p t) (hroom : t.kids.seps.length ≤ maxKeys)
    (hle : ∀ y ∈ t.kids.seps.take (t.kids.index key), y ≤ x)
    (hlt : ∀ y ∈ t.kids.seps.drop (t.kids.index key), x < y)
    (hl : pointer l = pointer (t.kids.pick key)) (hstl : Stored H (some t.addr) l)
    (hstr : Stored H q right) (hothers : ∀ c ∈ t.kids.others key, Stored H (some t.addr) c)
    (hn : (MTree.node t.addr (t.kids.place key (.cons l x (.one right)))).addrs.Nodup) :
    ∃ H', nodeInsertAt H t.addr x (pointer right) = .ok H' ∧ H'.next = H.next ∧
      Stored H' p (.node t.addr (t.kids.place key (.cons l x (.one right)))) ∧
      ∀ b, b ∉ (MTree.node t.addr (t.kids.place key (.cons l x (.one right)))).addrs →
        H'.nodes b = H.nodes b := by
  obtain ⟨n, hget, hshow, hparent, hleaf⟩ := hroot
  have hperm : (MTree.node t.addr (t.kids.place key (.cons l x (.one right)))).kids.children.Perm
      (right :: l :: t.kids.others key) :=
    (Kids.children_place_perm key t.kids _).trans (List.Perm.swap _ _ _)
  have haddr : ∀ c ∈ right :: l :: t.kids.others key, t.addr ∉ c.addrs := fun c hc =>
    MTree.addr_notMem_child hn (hperm.mem_iff.mpr hc)
  have hall := MTree.addrs_perm hperm
  rw [hall] at hn
  obtain ⟨-, hbelow, -⟩ := Multiset.nodup_add.mp hn
  obtain ⟨hright, -, hdisjoint⟩ := Multiset.nodup_add.mp hbelow
  have hpointer : ∀ b, pointer right = some b → b ≠ t.addr ∧ ∃ m, H.nodes b = some m :=
    fun b hb => by
      have hmem := mem_addrs_of_pointer hb
      refine ⟨?_, hstr.exists_node b hmem⟩
      rintro rfl
      exact haddr right List.mem_cons_self hmem
  obtain ⟨H', n', hrun, hnext, hget', hshow', hparent', hleaf', hnodes⟩ :=
    nodeInsertAt_eq hget hshow hroom (Kids.index_le key t.kids) hle hlt hpointer
  have hnode : ∀ c ∈ right :: l :: t.kids.others key, ∀ b ∈ c.addrs,
      H'.nodes b = BtreeStudy.adopted H t.addr [pointer right] b := fun c hc b hb =>
    hnodes b fun heq => haddr c hc (heq ▸ hb)
  -- the other children have nothing in common with the new one
  have hsame : ∀ c ∈ l :: t.kids.others key, Stored H (some t.addr) c → Stored H' (some t.addr) c :=
    fun c hc hst => hst.congr fun b hb => by
      rw [hnode c (List.mem_cons_of_mem _ hc) b hb, adopted_of_notMem]
      intro hmem
      exact Multiset.disjoint_left.mp hdisjoint
        (mem_addrs_of_pointer (List.mem_singleton.mp hmem).symm)
        (MTree.mem_sum_addrs.mpr ⟨c, hc, hb⟩)
  refine ⟨H', hrun, hnext, ⟨⟨n', hget', ?_, hparent'.trans hparent, hleaf'.trans hleaf⟩,
    fun c hc => ?_⟩, fun b hb => ?_⟩
  · rw [MTree.kids_node, seps_place_two, pointers, children_place_two hl]
    exact hshow'
  · rcases List.mem_cons.mp (hperm.mem_iff.mp hc) with rfl | hc
    · exact hstr.adopted hright (hnode c List.mem_cons_self) fun b _ => by
        rw [List.mem_singleton, eq_comm]
    · refine hsame c hc ?_
      rcases List.mem_cons.mp hc with rfl | hc
      · exact hstl
      · exact hothers c hc
  · rw [hall] at hb
    have hba : b ≠ t.addr := by
      rintro rfl
      exact hb (Multiset.mem_add.mpr (Or.inl (Multiset.mem_singleton_self _)))
    rw [hnodes b hba, adopted_of_notMem]
    intro hmem
    have hbr := mem_addrs_of_pointer (List.mem_singleton.mp hmem).symm
    exact hb (Multiset.mem_add.mpr (Or.inr (Multiset.mem_add.mpr (Or.inl hbr))))

/-! ## A tree becomes two -/

theorem pointers_append (l right : Kids Int64 (MTree Int64 h)) (x : Int64) :
    pointers (l.append x right) = pointers l ++ pointers right := by
  rw [pointers, Kids.children_append, List.map_append]
  rfl

/-- **An overflown tree becomes two.** -/
theorem buildSibling_stored {l right : Kids Int64 (MTree Int64 h)}
    (hst : Stored H p (.node a (l.append x right)))
    (hmid : (l.append x right).seps.length / 2 = l.seps.length)
    (hn : (MTree.node a (l.append x right)).addrs.Nodup)
    (hlt : ∀ b ∈ (MTree.node a (l.append x right)).addrs, b < H.next) :
    ∃ H', buildSibling H a = .ok (x, H.next, p, H') ∧ H'.next = H.next + 1 ∧
      Stored H' p (.node a l) ∧ Stored H' none (.node H.next right) ∧
      ∀ b, b ∉ (MTree.node a (l.append x right)).addrs → b ≠ H.next → H'.nodes b = H.nodes b := by
  obtain ⟨n, hget, hshow, hparent, hleaf⟩ := hst.root
  rw [MTree.kids_node, Kids.seps_append, pointers_append] at hshow
  rw [Kids.seps_append] at hmid
  have hmemr : ∀ c ∈ right.children, c ∈ (MTree.node a (l.append x right)).kids.children :=
    fun c hc => by
    rw [MTree.kids_node, Kids.children_append]
    exact List.mem_append_right _ hc
  have hmeml : ∀ c ∈ l.children, c ∈ (MTree.node a (l.append x right)).kids.children :=
    fun c hc => by
    rw [MTree.kids_node, Kids.children_append]
    exact List.mem_append_left _ hc
  have hbelow := hn
  rw [MTree.addrs_succ, MTree.kids_node, Kids.children_append, List.map_append,
    List.sum_append] at hbelow
  obtain ⟨-, hsum, -⟩ := Multiset.nodup_add.mp hbelow
  obtain ⟨-, hright, hdisjoint⟩ := Multiset.nodup_add.mp hsum
  have ha : a ≠ H.next := (hlt a (MTree.addr_mem_addrs _)).ne
  obtain ⟨H', hrun, hcut⟩ := buildSibling_eq hget hshow hmid (length_pointers l) ha
    (fun hl c hc => by
      rw [hleaf, decide_eq_true_eq] at hl
      subst hl
      obtain ⟨d, -, rfl⟩ := List.mem_map.mp hc
      rfl)
    (fun b hb => by
      obtain ⟨c, hc, hbc⟩ := mem_pointers hb
      obtain ⟨hba, hmem, hex⟩ := hst.pointers_ok hn (hmemr c hc) hbc
      exact ⟨hba, (hlt b hmem).ne, hex⟩)
  have hnode : ∀ c ∈ (MTree.node a (l.append x right)).kids.children, ∀ b ∈ c.addrs,
      H'.nodes b = BtreeStudy.adopted H H.next (pointers right) b := fun c hc b hb => by
    refine hcut.other b ?_ (hlt b (Multiset.mem_of_le (MTree.addrs_le_of_mem hc) hb)).ne
    rintro rfl
    exact MTree.addr_notMem_child hn hc hb
  obtain ⟨n', hget', hshow', hparent', hleaf'⟩ := hcut.left
  obtain ⟨m, hgetm, hshowm, hparentm, hleafm⟩ := hcut.right
  rw [hparent] at hrun
  refine ⟨H', hrun, hcut.next,
    ⟨⟨n', hget', hshow', hparent'.trans hparent, hleaf'.trans hleaf⟩, fun c hc => ?_⟩,
    ⟨⟨m, hgetm, hshowm, hparentm, hleafm.trans hleaf⟩, fun c hc => ?_⟩, fun b hb hbn => ?_⟩
  · -- the left half
    refine (hst.child (hmeml c hc)).congr fun b hb => ?_
    rw [hnode c (hmeml c hc) b hb, adopted_of_notMem]
    intro hmem
    obtain ⟨d, hd, hbd⟩ := mem_pointers hmem
    exact Multiset.disjoint_left.mp hdisjoint (MTree.mem_sum_addrs.mpr ⟨c, hc, hb⟩)
      (MTree.mem_sum_addrs.mpr ⟨d, hd, mem_addrs_of_pointer hbd⟩)
  · -- the right half
    exact (hst.child (hmemr c hc)).adopted (Multiset.nodup_of_le (MTree.addrs_le_sum hc) hright)
      (hnode c (hmemr c hc)) fun b hb => mem_map_pointer_iff hright hc hb
  · have hba : b ≠ a := by
      rintro rfl
      exact hb (MTree.addr_mem_addrs _)
    rw [hcut.other b hba hbn, adopted_of_notMem]
    intro hmem
    obtain ⟨c, hc, hbc⟩ := mem_pointers hmem
    exact hb (hst.pointers_ok hn (hmemr c hc) hbc).2.1

end MiniDB.BtreeStudy
