import MiniDB.Study.Runs
import MiniDB.Console.Numbers
import MiniDB.Codes

/-!
# What is displayed

`btree_display` prints a line for each node, each node before those below it.

* `shown`: the nodes of a tree in that order; `Shown.line`: the line of one of them.
* `recDisplay_eq`: **`rec_display` prints the lines of the tree** on the heap.
* `lines_injective`: **a tree can be read off its lines**, but for the addresses of its nodes.
* `study_displays`: **every key that was inserted is displayed once**, and no other.
-/

namespace MiniDB.BtreeStudy

open BPlusTree (Kids)
open BTree
open Codes

variable {H : Heap} {n : BTreeNode} {ks : List Int64} {cs : List Pointer} {p : Pointer}
  {h depth level child : ℕ}

/-- What the display shows of a node: its level, its place among the children, and its keys. -/
structure Shown where
  level : ℕ
  child : ℕ
  keys : List Int64

/-- The keys in a line, each behind a slash. -/
def keysText (keys : List Int64) : List UInt8 :=
  (keys.flatMap fun key => ascii "/" ++ printInt64 key) ++ ascii "/"

/-- The line for a node. -/
def Shown.line (s : Shown) : List UInt8 :=
  ascii "level=" ++ printNat s.level ++ ascii " child=" ++ printNat s.child ++ ascii " " ++
    keysText s.keys

/-- The nodes of a tree, each before those below it. -/
def shown : {h : ℕ} → MTree Int64 h → ℕ → ℕ → List Shown
  | 0, _, _, _ => []
  | _ + 1, t, level, child => ⟨level, child, t.kids.seps⟩ ::
      t.kids.children.zipIdx.flatMap fun c => shown c.1 (level + 1) c.2

theorem shown_succ (t : MTree Int64 (h + 1)) (level child : ℕ) :
    shown t level child = ⟨level, child, t.kids.seps⟩ ::
      t.kids.children.zipIdx.flatMap fun c => shown c.1 (level + 1) c.2 := rfl

/-! ## The lines -/

/-- The loop over the keys of a node. -/
theorem displayKeys_eq (hn : Shows n ks cs) : (todo done : List Int64) → ks = done ++ todo →
    displayKeys n (List.range' done.length todo.length) = .ok (keysText todo)
  | [], _, _ => rfl
  | k :: todo, done, hks => by
    have hk : ks[done.length]? = some k := by
      rw [hks, List.getElem?_append_right le_rfl, Nat.sub_self]
      rfl
    have hrest := displayKeys_eq hn todo (done ++ [k]) (by simp [hks])
    rw [List.length_append, List.length_singleton] at hrest
    rw [List.length_cons, List.range'_succ, displayKeys, hn.key_eq hk, ok_bind, hrest, ok_bind,
      keysText, keysText, List.flatMap_cons, List.append_assoc (ascii "/" ++ printInt64 k)]
    rfl

/-- The loop over the children. -/
theorem displayChildren_eq {t : MTree Int64 (h + 1)}
    (display : Pointer → ℕ → Run (List (List UInt8)))
    (lines : MTree Int64 h → ℕ → List (List UInt8))
    (hn : Shows n t.kids.seps (pointers t.kids))
    (hdisplay : ∀ c ∈ t.kids.children, ∀ i,
      (if (pointer c).isSome then display (pointer c) i else pure []) = .ok (lines c i)) :
    (cs done : List (MTree Int64 h)) → t.kids.children = done ++ cs →
    displayChildren display n (List.range' done.length cs.length) =
      .ok ((cs.zipIdx done.length).flatMap fun c => lines c.1 c.2)
  | [], _, _ => rfl
  | c :: cs, done, hcs => by
    have hchild : (pointers t.kids)[done.length]? = some (pointer c) := by
      rw [pointers, hcs, List.map_append, List.getElem?_append_right (by simp)]
      simp
    have hmem : c ∈ t.kids.children := hcs ▸ List.mem_append_right _ List.mem_cons_self
    have hrest := displayChildren_eq display lines hn hdisplay cs (done ++ [c]) (by simp [hcs])
    rw [List.length_append, List.length_singleton] at hrest
    rw [List.length_cons, List.range'_succ, displayChildren, hn.child_eq hchild, ok_bind,
      hdisplay c hmem, ok_bind, hrest, ok_bind, List.zipIdx_cons, List.flatMap_cons]
    rfl

/-- **`rec_display` prints the lines of the tree.** -/
theorem recDisplay_eq : {h : ℕ} → {p : Pointer} → {t : MTree Int64 (h + 1)} → Stored H p t →
    {fuel : ℕ} → h < fuel → (level child : ℕ) →
    recDisplay fuel H (some t.addr) level child = .ok ((shown t level child).map Shown.line)
  | h, p, t, hst, fuel + 1, hfuel, level, child => by
    obtain ⟨n, hn, hshow, -, hleaf⟩ := hst.root
    have hkeys := displayKeys_eq hshow t.kids.seps [] rfl
    rw [List.length_nil, ← List.range_eq_range', ← hshow.numKeys] at hkeys
    have hbelow : (if ! n.isLeaf then
        displayChildren (fun c i => recDisplay fuel H c (level + 1) i) n
          (List.range (n.numKeys + 1)) else pure []) =
        .ok (t.kids.children.zipIdx.flatMap fun c =>
          (shown c.1 (level + 1) c.2).map Shown.line) := by
      cases h with
      | zero =>
        rw [hleaf, decide_eq_true rfl, Bool.not_true, if_neg (by decide)]
        exact congrArg Except.ok (List.flatMap_eq_nil_iff.mpr fun c _ => rfl).symm
      | succ h =>
        rw [hleaf, decide_eq_false (Nat.succ_ne_zero h), Bool.not_false, if_pos rfl, hshow.numKeys,
          ← Kids.length_children, List.range_eq_range']
        exact displayChildren_eq (fun c i => recDisplay fuel H c (level + 1) i)
          (fun c i => (shown c (level + 1) i).map Shown.line) hshow
          (fun c hc i => recDisplay_eq (hst.child hc) (by omega) (level + 1) i)
          t.kids.children [] rfl
    rw [recDisplay, get_some hn, ok_bind, hkeys, ok_bind, hbelow, ok_bind, shown_succ,
      List.map_cons, List.map_flatMap]
    rfl

/-! ## Reading the lines -/

theorem keysText_eq (keys : List Int64) :
    keysText keys = 47 :: keys.flatMap fun key => printInt64 key ++ [47] := by
  induction keys with
  | nil => rfl
  | cons key keys ih =>
    rw [keysText] at ih
    rw [keysText, List.flatMap_cons, List.append_assoc, ih, List.flatMap_cons, List.append_assoc,
      List.append_assoc]
    rfl

/-- The keys of a line can be read off what is written up to its end. -/
theorem keys_code : SelfDelimiting (fun keys : List Int64 => ∀ key ∈ keys, True) fun keys =>
    (keys.flatMap fun key => printInt64 key ++ [47]) ++ [10] := by
  have hslash : ∀ key : Int64, 47 ∉ printInt64 key := fun key hmem =>
    absurd (digit_of_mem_printInt64 hmem) (by decide)
  refine (selfDelimiting_stop (fun _ _ => printInt64_injective) hslash).list fun key _ => ?_
  cases htext : printInt64 key with
  | nil => exact ⟨47, [], rfl, by decide⟩
  | cons b text =>
    refine ⟨b, text ++ [47], rfl, ?_⟩
    rintro rfl
    exact noBreak_printInt64 key (htext ▸ List.mem_cons_self)

/-- **A node can be read off its line.** -/
theorem line_injective {s s' : Shown} (h : s.line = s'.line) : s = s' := by
  have hnat : SelfDelimiting (fun _ : ℕ => True) fun k => printNat k ++ [32] :=
    selfDelimiting_stop (fun _ _ => printNat_injective) fun _ hmem =>
      absurd (digit_of_mem_printNat hmem).1 (by decide)
  have hline : ∀ s : Shown, s.line ++ [10] = ascii "level=" ++ ((printNat s.level ++ [32]) ++
      (ascii "child=" ++ ((printNat s.child ++ [32]) ++
        (47 :: ((s.keys.flatMap fun key => printInt64 key ++ [47]) ++ [10]))))) := by
    intro s
    have hchild : ascii " child=" = [32] ++ ascii "child=" := rfl
    rw [Shown.line, keysText_eq, hchild]
    simp only [List.append_assoc, List.cons_append]
    rfl
  have hall : s.line ++ [10] = s'.line ++ [10] := congrArg (· ++ [10]) h
  rw [hline, hline] at hall
  obtain ⟨hlevel, hall⟩ := hnat trivial trivial (List.append_cancel_left hall)
  obtain ⟨hchild, hall⟩ := hnat trivial trivial (List.append_cancel_left hall)
  have hkeys := keys_code.injective (fun _ _ => trivial) (fun _ _ => trivial)
    (List.cons.inj hall).2
  obtain ⟨level, child, keys⟩ := s
  obtain ⟨level', child', keys'⟩ := s'
  cases hlevel
  cases hchild
  cases hkeys
  rfl

/-- The children, behind a node that shows its keys. -/
theorem children_code {k k' : Kids Int64 (MTree Int64 h)} {rest rest' : List Shown}
    (hchild : ∀ (t t' : MTree Int64 h) (i : ℕ) (r r' : List Shown),
      shown t level i ++ r = shown t' level i ++ r' → t.bare = t'.bare ∧ r = r')
    (hseps : k.seps = k'.seps) (i : ℕ)
    (heq : ((k.children.zipIdx i).flatMap fun c => shown c.1 level c.2) ++ rest =
      ((k'.children.zipIdx i).flatMap fun c => shown c.1 level c.2) ++ rest') :
    k.map MTree.bare = k'.map MTree.bare ∧ rest = rest' := by
  induction k generalizing k' i with
  | one c =>
    cases k' with
    | one c' =>
      simp only [Kids.children_one, List.zipIdx_singleton, List.flatMap_singleton] at heq
      obtain ⟨hbare, hrest⟩ := hchild c c' i rest rest' heq
      exact ⟨congrArg Kids.one hbare, hrest⟩
    | cons c' s' t' => exact absurd hseps.symm (List.cons_ne_nil _ _)
  | cons c s t ih =>
    cases k' with
    | one c' => exact absurd hseps (List.cons_ne_nil _ _)
    | cons c' s' t' =>
      obtain ⟨rfl, hrests⟩ := List.cons.inj hseps
      simp only [Kids.children_cons, List.zipIdx_cons, List.flatMap_cons,
        List.append_assoc] at heq
      obtain ⟨hbare, heq⟩ := hchild c c' i _ _ heq
      obtain ⟨htail, hrest⟩ := ih hrests (i + 1) heq
      exact ⟨by rw [Kids.map, Kids.map, hbare, htail], hrest⟩

/-- **The nodes in their order give the tree** and what follows them. -/
theorem shown_code : {h : ℕ} → (t t' : MTree Int64 h) → (level child : ℕ) →
    (rest rest' : List Shown) → shown t level child ++ rest = shown t' level child ++ rest' →
    t.bare = t'.bare ∧ rest = rest'
  | 0, _, _, _, _, _, _, heq => ⟨rfl, heq⟩
  | h + 1, t, t', level, child, rest, rest', heq => by
    rw [shown_succ, shown_succ, List.cons_append, List.cons_append] at heq
    obtain ⟨hnode, heq⟩ := List.cons.inj heq
    obtain ⟨-, -, hseps⟩ := Shown.mk.inj hnode
    obtain ⟨hkids, hrest⟩ := children_code
      (fun t t' i r r' => shown_code t t' (level + 1) i r r') hseps 0 heq
    exact ⟨by rw [MTree.bare_succ, MTree.bare_succ, hkids], hrest⟩

/-- No node is deeper than the tree is high. -/
theorem level_lt : {h : ℕ} → {t : MTree Int64 h} → {level child : ℕ} →
    ∀ s ∈ shown t level child, s.level < level + h
  | 0, _, _, _, _, hs => absurd hs List.not_mem_nil
  | h + 1, t, level, child, s, hs => by
    rcases List.mem_cons.mp hs with rfl | hs
    · exact Nat.lt_add_of_pos_right (Nat.succ_pos h)
    · obtain ⟨c, -, hs⟩ := List.mem_flatMap.mp hs
      have hlt := level_lt s hs
      omega

/-- The leaves are that deep. -/
theorem exists_level : {h : ℕ} → (t : MTree Int64 (h + 1)) → (level child : ℕ) →
    ∃ s ∈ shown t level child, s.level = level + h
  | 0, _, _, _ => ⟨_, List.mem_cons_self, rfl⟩
  | h + 1, t, level, child => by
    obtain ⟨s, hs, hlevel⟩ := exists_level t.kids.head (level + 1) 0
    refine ⟨s, List.mem_cons_of_mem _ (List.mem_flatMap.mpr ⟨(t.kids.head, 0), ?_, hs⟩), by omega⟩
    rw [Kids.children_eq_head_cons]
    exact List.mem_cons_self

/-- **A tree can be read off its lines**, but for the addresses of its nodes. -/
theorem lines_injective {t t' : AnyTree Int64}
    (heq : (shown t.2 0 0).map Shown.line = (shown t'.2 0 0).map Shown.line) :
    AnyTree.bare t = AnyTree.bare t' := by
  obtain ⟨h, t⟩ := t
  obtain ⟨h', t'⟩ := t'
  have hshown : shown t 0 0 = shown t' 0 0 :=
    List.map_injective_iff.mpr (fun _ _ => line_injective) heq
  obtain ⟨s, hs, hlevel⟩ := exists_level t 0 0
  obtain ⟨s', hs', hlevel'⟩ := exists_level t' 0 0
  have hle := level_lt s (hshown ▸ hs)
  have hle' := level_lt s' (hshown ▸ hs')
  obtain rfl : h = h' := by omega
  obtain ⟨hbare, -⟩ := shown_code t t' 0 0 [] [] (congrArg (· ++ []) hshown)
  rw [AnyTree.bare, AnyTree.bare, hbare]

/-! ## The keys in the lines -/

/-- The keys of the nodes, all together, are those of the tree. -/
theorem keys_shown : {h : ℕ} → (t : MTree Int64 h) → (level child : ℕ) →
    ((shown t level child).flatMap Shown.keys).Perm t.keys
  | 0, _, _, _ => List.Perm.refl _
  | h + 1, t, level, child => by
    have hbelow :
        ((t.kids.children.zipIdx.flatMap fun c => shown c.1 (level + 1) c.2).flatMap
          Shown.keys).Perm (t.kids.children.flatMap MTree.keys) := by
      rw [List.flatMap_assoc]
      refine (List.Perm.flatMap_left _ fun c _ => keys_shown c.1 (level + 1) c.2).trans ?_
      rw [← List.zipIdx_map_fst 0 t.kids.children, List.flatMap_map, List.zipIdx_map_fst]
    rw [shown_succ, List.flatMap_cons, MTree.keys_succ]
    exact (hbelow.append_left _).trans (perm_inorder t.kids).symm

/-- The keys of a node stand in the tree in the order in which they are displayed. -/
theorem sublist_shown : {h : ℕ} → {t : MTree Int64 h} → {level child : ℕ} →
    ∀ s ∈ shown t level child, s.keys.Sublist t.keys
  | 0, _, _, _, _, hs => absurd hs List.not_mem_nil
  | h + 1, t, level, child, s, hs => by
    rw [MTree.keys_succ]
    rcases List.mem_cons.mp hs with rfl | hs
    · exact seps_sublist_inorder t.kids
    · obtain ⟨c, hc, hs⟩ := List.mem_flatMap.mp hs
      exact (sublist_shown s hs).trans
        (sublist_inorder t.kids (List.fst_mem_of_mem_zipIdx hc))

/-- No line shows too many keys. -/
theorem length_shown : {h : ℕ} → {t : MTree Int64 h} → t.Sized minKeys maxKeys →
    {level child : ℕ} → ∀ s ∈ shown t level child, s.keys.length ≤ maxKeys
  | 0, _, _, _, _, _, hs => absurd hs List.not_mem_nil
  | h + 1, t, ht, level, child, s, hs => by
    rcases List.mem_cons.mp hs with rfl | hs
    · exact ht.2.1
    · obtain ⟨c, hc, hs⟩ := List.mem_flatMap.mp hs
      exact length_shown (ht.2.2 c.1 (List.fst_mem_of_mem_zipIdx hc)) s hs

/-- **Every key that was inserted is displayed once**, and no other; the lines are those of the
tree, which can be read off them but for its addresses, and the keys of a line ascend. -/
theorem study_displays (keys : List Int64) (hdepth : keys.length + 1 < 2 * 3 ^ (depth + 1)) :
    ∃ root H t, insertAll (depth + 1) keys (btreeCreate Heap.empty) = .ok (root, H) ∧
      Represents H root t ∧
      recDisplay (depth + 1) H (some root) 0 0 = .ok ((shown t.2 0 0).map Shown.line) ∧
      (∀ t' : AnyTree Int64, (shown t'.2 0 0).map Shown.line = (shown t.2 0 0).map Shown.line →
        AnyTree.bare t' = AnyTree.bare t) ∧
      ((shown t.2 0 0).flatMap Shown.keys).Nodup ∧
      (∀ x, x ∈ (shown t.2 0 0).flatMap Shown.keys ↔ x ∈ keys) ∧
      ∀ node ∈ shown t.2 0 0, node.keys.Pairwise (· < ·) ∧ node.keys.length ≤ maxKeys := by
  obtain ⟨root, H, t, hrun, hr, hmem, hheight⟩ := exists_built keys hdepth
  have hperm := keys_shown t.2 0 0
  have hascend : t.2.keys.Pairwise (· < ·) := hr.ordered.between_keys.1
  have hdisplay := recDisplay_eq hr.stored (Nat.lt_succ_of_le hheight) 0 0
  rw [hr.addr] at hdisplay
  refine ⟨root, H, t, hrun, hr, hdisplay, ?_, hperm.nodup_iff.mpr (hascend.imp fun h => h.ne),
    fun x => ?_, fun node hnode => ⟨?_, ?_⟩⟩
  · exact fun t' heq => lines_injective heq
  · rw [hperm.mem_iff, hmem]
  · exact hascend.sublist (sublist_shown node hnode)
  · rcases List.mem_cons.mp hnode with rfl | hnode
    · exact hr.sized.le
    · obtain ⟨c, hc, hnode⟩ := List.mem_flatMap.mp hnode
      exact length_shown (hr.sized.below c.1 (List.fst_mem_of_mem_zipIdx hc)) node hnode

theorem study_displays_main :
    ∃ root H t, insertAll 3 mainKeys (btreeCreate Heap.empty) = .ok (root, H) ∧
      Represents H root t ∧
      recDisplay 3 H (some root) 0 0 = .ok ((shown t.2 0 0).map Shown.line) ∧
      (∀ t' : AnyTree Int64, (shown t'.2 0 0).map Shown.line = (shown t.2 0 0).map Shown.line →
        AnyTree.bare t' = AnyTree.bare t) ∧
      ((shown t.2 0 0).flatMap Shown.keys).Nodup ∧
      (∀ x, x ∈ (shown t.2 0 0).flatMap Shown.keys ↔ x ∈ mainKeys) ∧
      ∀ node ∈ shown t.2 0 0, node.keys.Pairwise (· < ·) ∧ node.keys.length ≤ maxKeys :=
  study_displays mainKeys (by decide)

end MiniDB.BtreeStudy
