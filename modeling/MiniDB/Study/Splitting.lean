import MiniDB.Study.Inserting

/-!
# Cutting a node

* `copyKeys_eq`, `moveChildren_eq`: the loops of `split`.
* `buildSibling_eq`: **an overflown node is cut** at its middle key, and the children of the right
  half get a new parent.
* `growRoot_eq`: two nodes come under a new root.
-/

namespace MiniDB.BtreeStudy

open BPlusTree (Kids)
open BTree

variable {H H' : Heap} {n : BTreeNode} {ks : List Int64} {cs : List Pointer} {c : Pointer}
  {x : Int64} {i a r mid h : ℕ}

/-! ## Filling an array -/

section Arrays

variable {α : Type} {done xs : List α}

/-- The next slot is filled. -/
theorem prefix_set (h : done <+: xs) (hlt : done.length < xs.length) (c : α) :
    done ++ [c] <+: xs.set done.length c := by
  obtain ⟨rest, rfl⟩ := h
  cases rest with
  | nil => simp at hlt
  | cons d rest => exact ⟨rest, by simp⟩

/-- What is in front stays. -/
theorem prefix_set_of_le (h : done <+: xs) (hle : done.length ≤ i) (c : α) :
    done <+: xs.set i c := by
  obtain ⟨rest, rfl⟩ := h
  exact ⟨rest.set (i - done.length) c, by rw [List.set_append_right _ _ hle]⟩

end Arrays

/-- Nothing is assigned but keys. -/
structure KeepsKeys (n n' : BTreeNode) (ks : List Int64) : Prop where
  same : n' = { n with keys := n'.keys }
  slots : n'.keys.length = n.keys.length
  front : ks.map some <+: n'.keys

/-- Nothing is assigned but children. -/
structure KeepsChildren (n n' : BTreeNode) (cs : List Pointer) : Prop where
  same : n' = { n with children := n'.children }
  slots : n'.children.length = n.children.length
  front : cs <+: n'.children

/-- **The loop that copies keys** to the sibling. -/
theorem copyKeys_eq {ls rs : List Int64} (hn : Shows n (ls ++ x :: rs) cs) :
    (todo done : List Int64) → rs = done ++ todo → (m : BTreeNode) → rs.length ≤ m.keys.length →
    done.map some <+: m.keys →
    ∃ m', copyKeys n ls.length (List.range' done.length todo.length) m = .ok m' ∧ KeepsKeys m m' rs
  | [], done, hrs, m, _, hfront => by
    rw [List.append_nil] at hrs
    exact ⟨m, rfl, rfl, rfl, hrs ▸ hfront⟩
  | k :: todo, done, hrs, m, hroom, hfront => by
    have hroom' : done.length < m.keys.length := by
      rw [hrs, List.length_append, List.length_cons] at hroom
      omega
    have hk : (ls ++ x :: rs)[ls.length + 1 + done.length]? = some k := by
      rw [List.getElem?_append_right (by omega), Nat.add_assoc, Nat.add_sub_cancel_left,
        Nat.add_comm 1, List.getElem?_cons_succ, hrs, List.getElem?_append_right le_rfl,
        Nat.sub_self]
      rfl
    have hnext := prefix_set hfront (by rwa [List.length_map]) (some k)
    rw [List.length_map] at hnext
    obtain ⟨m', hrun, hkeeps⟩ := copyKeys_eq hn todo (done ++ [k]) (by simp [hrs])
      { m with keys := m.keys.set done.length (some k) } (by simpa using hroom)
      (by simpa using hnext)
    refine ⟨m', ?_, hkeeps.same, hkeeps.slots.trans List.length_set, hkeeps.front⟩
    rw [List.length_append, List.length_singleton] at hrun
    rw [List.length_cons, List.range'_succ, copyKeys, hn.key_eq hk, ok_bind, setKey_eq hroom',
      ok_bind]
    exact hrun

/-- The nodes other than the two at which children are assigned. -/
structure Moved (H H' : Heap) (a r : ℕ) (n m : BTreeNode) (ls rs : List Pointer)
    (moved : List Pointer) : Prop where
  next : H'.next = H.next
  left : ∃ n', H'.nodes a = some n' ∧ KeepsChildren n n' ls
  right : ∃ m', H'.nodes r = some m' ∧ KeepsChildren m m' rs
  other : ∀ b, b ≠ a → b ≠ r → H'.nodes b = adopted H r moved b

/-- **The loop that moves children** to the sibling. -/
theorem moveChildren_eq {ls rs : List Pointer} (hne : a ≠ r) (hmid : ls.length = mid + 1) :
    (todo done : List Pointer) → rs = done ++ todo → (H : Heap) → (n m : BTreeNode) →
    H.nodes a = some n → H.nodes r = some m → ls <+: n.children →
    (∀ i (hi : i < todo.length), n.children[mid + 1 + (done.length + i)]? = some todo[i]) →
    rs.length ≤ m.children.length → done <+: m.children →
    (∀ b, some b ∈ todo → b ≠ a ∧ b ≠ r ∧ ∃ l, H.nodes b = some l) →
    ∃ H', moveChildren a r mid (List.range' done.length todo.length) H = .ok H' ∧
      Moved H H' a r n m ls rs todo
  | [], done, hrs, H, n, m, hn, hm, hls, _, _, hfront, _ => by
    rw [List.append_nil] at hrs
    exact ⟨H, rfl, rfl, ⟨n, hn, rfl, rfl, hls⟩, ⟨m, hm, rfl, rfl, hrs ▸ hfront⟩,
      fun b _ _ => (adopted_of_notMem List.not_mem_nil r).symm⟩
  | c :: todo, done, hrs, H, n, m, hn, hm, hls, hget, hroom, hfront, hex => by
    have hroom' : done.length < m.children.length := by
      rw [hrs, List.length_append, List.length_cons] at hroom
      omega
    have hc : n.children[mid + 1 + done.length]? = some c := hget 0 (Nat.succ_pos _)
    have hslot : mid + 1 + done.length < n.children.length := (List.getElem?_eq_some_iff.mp hc).1
    obtain ⟨m₁, hm₁⟩ : ∃ m₁ : BTreeNode,
      m₁ = { m with children := m.children.set done.length c } := ⟨_, rfl⟩
    obtain ⟨n₁, hn₁⟩ : ∃ n₁ : BTreeNode,
      n₁ = { n with children := n.children.set (mid + 1 + done.length) none } := ⟨_, rfl⟩
    -- the child gets the sibling as its parent, and disappears from the left half
    obtain ⟨H₁, hadopt, hnext, hnodes⟩ := setParent_eq (H := H.set r m₁) (c := c) (fun b hb => by
      obtain ⟨-, hbr, l, hl⟩ := hex b (hb ▸ List.mem_cons_self)
      exact ⟨l, by rw [nodes_set, Function.update_of_ne hbr, hl]⟩) r
    have hnodes' : ∀ b, b ≠ r → H₁.nodes b = adopted H r [c] b := fun b hb => by
      rw [hnodes, adopted, nodes_set, Function.update_of_ne hb]
      rfl
    have hca : some a ∉ [c] := fun hmem =>
      (hex a (List.mem_singleton.mp hmem ▸ List.mem_cons_self)).1 rfl
    have hcr : some r ∉ [c] := fun hmem =>
      (hex r (List.mem_singleton.mp hmem ▸ List.mem_cons_self)).2.1 rfl
    have ha₁ : H₁.nodes a = some n := by rw [hnodes' a hne, adopted_of_notMem hca, hn]
    have hr₁ : (H₁.set a n₁).nodes r = some m₁ := by
      rw [nodes_set, Function.update_of_ne hne.symm, hnodes, adopted_of_notMem hcr, nodes_set,
        Function.update_self]
    have hrs' : rs = (done ++ [c]) ++ todo := by rw [hrs, List.append_assoc, List.singleton_append]
    obtain ⟨H₂, hrun, hmoved⟩ := moveChildren_eq hne hmid todo (done ++ [c]) hrs'
      (H₁.set a n₁) n₁ m₁ (Function.update_self ..) hr₁
      (by rw [hn₁]; exact prefix_set_of_le hls (by omega) none)
      (fun i hi => by
        have hnext := hget (i + 1) (Nat.succ_lt_succ hi)
        rw [List.getElem_cons_succ] at hnext
        rw [hn₁]
        dsimp only
        rw [List.length_append, List.length_singleton, List.getElem?_set_ne (by omega), ← hnext]
        congr 1
        omega)
      (by rwa [hm₁, List.length_set]) (by rw [hm₁]; exact prefix_set hfront hroom' c)
      (fun b hb => by
        obtain ⟨hba, hbr, l, hl⟩ := hex b (List.mem_cons_of_mem _ hb)
        refine ⟨hba, hbr, ?_⟩
        rw [nodes_set, Function.update_of_ne hba, hnodes' b hbr, adopted]
        split
        · exact ⟨_, by rw [hl]; rfl⟩
        · exact ⟨l, hl⟩)
    refine ⟨H₂, ?_, ?_, ?_, ?_, fun b hba hbr => ?_⟩
    · rw [List.length_append, List.length_singleton] at hrun
      rw [List.length_cons, List.range'_succ, moveChildren, get_some hn, ok_bind,
        child_of_getElem? hc, ok_bind, get_some hm, ok_bind, setChild_eq hroom', ok_bind, ← hm₁]
      dsimp only
      rw [hadopt, ok_bind, get_some ha₁, ok_bind, setChild_eq hslot, ok_bind, ← hn₁]
      exact hrun
    · exact hmoved.next.trans hnext
    · obtain ⟨n', hn', hsame, hslots, hfront'⟩ := hmoved.left
      rw [hn₁] at hsame hslots
      exact ⟨n', hn', hsame, hslots.trans List.length_set, hfront'⟩
    · obtain ⟨m', hm', hsame, hslots, hfront'⟩ := hmoved.right
      rw [hm₁] at hsame hslots
      exact ⟨m', hm', hsame, hslots.trans List.length_set, hfront'⟩
    · have hset : (H₁.set a n₁).nodes b = adopted H r [c] b := by
        rw [nodes_set, Function.update_of_ne hba, hnodes' b hbr]
      rw [hmoved.other b hba hbr, adopted_adopted hset, List.singleton_append]

/-! ## Cutting -/

/-- A node was cut: the left half stays, and the right half is new. -/
structure Cut (H H' : Heap) (a : ℕ) (n : BTreeNode) (ls rs : List Int64) (cl cr : List Pointer) :
    Prop where
  next : H'.next = H.next + 1
  left : ∃ n', H'.nodes a = some n' ∧ Shows n' ls cl ∧ n'.parent = n.parent ∧ n'.isLeaf = n.isLeaf
  right : ∃ m, H'.nodes H.next = some m ∧ Shows m rs cr ∧ m.parent = none ∧ m.isLeaf = n.isLeaf
  other : ∀ b, b ≠ a → b ≠ H.next → H'.nodes b = adopted H H.next cr b

/-- The children move, unless the node is a leaf; there the sibling has none as well. -/
theorem move_eq (isLeaf : Bool) {ls rs : List Pointer} (hne : a ≠ r) (hmid : ls.length = mid + 1)
    {m : BTreeNode} (hn : H.nodes a = some n) (hm : H.nodes r = some m)
    (hls : ls ++ rs <+: n.children)
    (hroom : rs.length ≤ order + 1) (hempty : m.children = List.replicate (order + 1) none)
    (hleaf : isLeaf = true → ∀ c ∈ rs, c = none)
    (hex : ∀ b, some b ∈ rs → b ≠ a ∧ b ≠ r ∧ ∃ l, H.nodes b = some l) :
    ∃ H', (if ! isLeaf then moveChildren a r mid (List.range rs.length) H else pure H) = .ok H' ∧
      Moved H H' a r n m ls rs rs := by
  cases isLeaf with
  | false =>
    rw [List.range_eq_range']
    refine moveChildren_eq hne hmid rs [] rfl H n m hn hm ((List.prefix_append _ _).trans hls)
      (fun i hi => ?_) (by rwa [hempty, List.length_replicate]) List.nil_prefix hex
    have hget := List.prefix_iff_getElem?.mp hls (mid + 1 + i) (by
      rw [List.length_append]
      omega)
    rw [List.getElem_append_right (by omega)] at hget
    rw [List.length_nil, Nat.zero_add, hget]
    congr 2
    omega
  | true =>
    have hnone : rs = List.replicate rs.length none := List.eq_replicate_of_mem (hleaf rfl)
    refine ⟨H, rfl, rfl, ⟨n, hn, rfl, rfl, (List.prefix_append _ _).trans hls⟩,
      ⟨m, hm, rfl, rfl, ?_⟩, fun b _ _ => ?_⟩
    · rw [hempty, hnone]
      exact ⟨List.replicate (order + 1 - rs.length) none, by
        rw [List.replicate_append_replicate, Nat.add_sub_cancel' hroom]⟩
    · refine (adopted_of_notMem (fun hmem => ?_) r).symm
      cases hleaf rfl _ hmem

/-- **An overflown node is cut** at its middle key. -/
theorem buildSibling_eq {ls rs : List Int64} {cl cr : List Pointer} (hn : H.nodes a = some n)
    (hshow : Shows n (ls ++ x :: rs) (cl ++ cr)) (hmid : (ls ++ x :: rs).length / 2 = ls.length)
    (hcl : cl.length = ls.length + 1) (ha : a ≠ H.next)
    (hleaf : n.isLeaf = true → ∀ c ∈ cr, c = none)
    (hex : ∀ b, some b ∈ cr → b ≠ a ∧ b ≠ H.next ∧ ∃ l, H.nodes b = some l) :
    ∃ H', buildSibling H a = .ok (x, H.next, n.parent, H') ∧ Cut H H' a n ls rs cl cr := by
  have hlen := hshow.length_le
  have harity := hshow.arity
  rw [List.length_append, List.length_cons] at hlen
  rw [List.length_append, List.length_append, List.length_cons] at harity
  have hcr : cr.length = rs.length + 1 := by omega
  have hmax : maxKeys = 4 := rfl
  have horder : order = 5 := rfl
  have hrs : n.numKeys - ls.length - 1 = rs.length := by
    rw [hshow.numKeys, List.length_append, List.length_cons]
    omega
  have hx : n.key ls.length = .ok x := hshow.key_eq (by
    rw [List.getElem?_append_right le_rfl, Nat.sub_self]
    rfl)
  -- the sibling, with its keys
  obtain ⟨m, hcopy, hkeys⟩ := copyKeys_eq hshow rs [] rfl
    ⟨rs.length, List.replicate (maxKeys + 1) none, List.replicate (order + 1) none, none, n.isLeaf⟩
    (by rw [List.length_replicate]; omega) List.nil_prefix
  obtain ⟨H₁, hH₁⟩ : ∃ H₁ : Heap, H₁ = (nodeCreate H n.isLeaf).2.set H.next m := ⟨_, rfl⟩
  have hr₁ : H₁.nodes H.next = some m := by rw [hH₁, nodes_set, Function.update_self]
  have hother : ∀ b, b ≠ H.next → H₁.nodes b = H.nodes b := fun b hb => by
    rw [hH₁, nodes_set, Function.update_of_ne hb, nodeCreate]
    exact Function.update_of_ne hb ..
  obtain ⟨H₂, hmove, hmoved⟩ := move_eq n.isLeaf ha hcl ((hother a ha).trans hn) hr₁
    hshow.children (by omega) (by rw [hkeys.same]) hleaf (fun b hb => by
      obtain ⟨hba, hbr, l, hl⟩ := hex b hb
      exact ⟨hba, hbr, l, (hother b hbr).trans hl⟩)
  obtain ⟨n', hn', hleft⟩ := hmoved.left
  obtain ⟨m', hm', hright⟩ := hmoved.right
  refine ⟨H₂.set a { n' with numKeys := ls.length }, ?_, ?_, ?_, ?_, fun b hba hbr => ?_⟩
  · have hnew : (nodeCreate H n.isLeaf).2.get (some H.next) = .ok ⟨0,
        List.replicate (maxKeys + 1) none, List.replicate (order + 1) none, none, n.isLeaf⟩ :=
      get_some (Function.update_self ..)
    have hpair : nodeCreate H n.isLeaf = (H.next, (nodeCreate H n.isLeaf).2) := rfl
    rw [buildSibling, get_some hn, ok_bind, hshow.numKeys, hmid]
    dsimp only
    rw [hx, ok_bind, hpair]
    dsimp only
    rw [hnew, ok_bind]
    dsimp only
    have hnum : m.numKeys + 1 = cr.length := by rw [hkeys.same, hcr]
    rw [List.length_nil] at hcopy
    rw [← hshow.numKeys, hrs, List.range_eq_range', hcopy, ok_bind, ← hH₁, hnum, hmove, ok_bind,
      get_some hn', ok_bind, hleft.same]
    rfl
  · exact hmoved.next.trans (by rw [hH₁]; rfl)
  · refine ⟨_, Function.update_self .., ⟨rfl, ?_, hleft.front, ?_, ?_, hcl⟩, ?_, ?_⟩
    · rw [hleft.same]
      exact (List.map_append (f := some) ▸ List.prefix_append _ _ : _ <+: _).trans hshow.keys
    · rw [hleft.same]
      exact hshow.keySlots
    · exact hleft.slots.trans hshow.childSlots
    · rw [hleft.same]
    · rw [hleft.same]
  · refine ⟨m', ?_, ⟨?_, ?_, hright.front, ?_, ?_, hcr⟩, ?_, ?_⟩
    · rw [nodes_set, Function.update_of_ne ha.symm, hm']
    · rw [hright.same, hkeys.same]
    · rw [hright.same]
      exact hkeys.front
    · rw [hright.same]
      exact hkeys.slots.trans (List.length_replicate ..)
    · rw [hright.slots, hkeys.same]
      exact List.length_replicate ..
    · rw [hright.same, hkeys.same]
    · rw [hright.same, hkeys.same]
  · rw [nodes_set, Function.update_of_ne hba, hmoved.other b hba hbr, adopted, hother b hbr]
    rfl

/-- **Two nodes come under a new root.** -/
theorem growRoot_eq {m : BTreeNode} (hn : H.nodes a = some n) (hm : H.nodes r = some m)
    (ha : a ≠ H.next) (hr : r ≠ H.next) (x : Int64) :
    ∃ H', growRoot H x a r = .ok (H.next, H') ∧ H'.next = H.next + 1 ∧
      (∃ m, H'.nodes H.next = some m ∧ Shows m [x] [some a, some r] ∧ m.parent = none ∧
        m.isLeaf = false) ∧
      ∀ b, b ≠ H.next → H'.nodes b = adopted H H.next [some r, some a] b := by
  obtain ⟨m₀, hm₀⟩ : ∃ m₀ : BTreeNode, m₀ = ⟨1, (List.replicate (maxKeys + 1) none).set 0 (some x),
    ((List.replicate (order + 1) none).set 0 (some a)).set 1 (some r), none, false⟩ := ⟨_, rfl⟩
  obtain ⟨H₁, hH₁⟩ : ∃ H₁ : Heap, H₁ = (nodeCreate H false).2.set H.next m₀ := ⟨_, rfl⟩
  have hother : ∀ b, b ≠ H.next → H₁.nodes b = H.nodes b := fun b hb => by
    rw [hH₁, nodes_set, Function.update_of_ne hb, nodeCreate]
    exact Function.update_of_ne hb ..
  obtain ⟨H₂, hrun₂, hnext₂, hnodes₂⟩ := setParent_eq (H := H₁) (c := some r) (fun b hb => by
    cases hb
    exact ⟨m, (hother r hr).trans hm⟩) H.next
  obtain ⟨H₃, hrun₃, hnext₃, hnodes₃⟩ := setParent_eq (H := H₂) (c := some a) (fun b hb => by
    cases hb
    rw [hnodes₂, adopted, hother a ha, hn]
    split
    · exact ⟨_, rfl⟩
    · exact ⟨_, rfl⟩) H.next
  have hnodes : ∀ b, H₃.nodes b = adopted H₁ H.next [some r, some a] b := fun b =>
    (hnodes₃ b).trans (adopted_adopted (hnodes₂ b))
  refine ⟨H₃, ?_, ?_, ⟨m₀, ?_, ?_, ?_, ?_⟩, fun b hb => ?_⟩
  · have hnew : (nodeCreate H false).2.get (some H.next) = .ok ⟨0,
        List.replicate (maxKeys + 1) none, List.replicate (order + 1) none, none, false⟩ :=
      get_some (Function.update_self ..)
    have hpair : nodeCreate H false = (H.next, (nodeCreate H false).2) := rfl
    rw [growRoot, hpair]
    dsimp only
    rw [hnew, ok_bind]
    rw [setKey_eq (by decide), ok_bind]
    dsimp only
    rw [setChild_eq (by simp), ok_bind, setChild_eq (by simp [order]), ok_bind]
    dsimp only
    rw [← hm₀, ← hH₁, hrun₂, ok_bind, hrun₃, ok_bind]
    rfl
  · rw [hnext₃, hnext₂, hH₁]
    rfl
  · rw [hnodes, adopted_of_notMem (by simp [hr.symm, ha.symm]), hH₁, nodes_set,
      Function.update_self]
  · rw [hm₀]
    exact ⟨rfl, ⟨_, rfl⟩, ⟨_, rfl⟩, rfl, rfl, rfl⟩
  · rw [hm₀]
  · rw [hm₀]
  · rw [hnodes, adopted, hother b hb]
    rfl

end MiniDB.BtreeStudy
