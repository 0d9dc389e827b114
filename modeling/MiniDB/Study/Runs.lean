import MiniDB.Study.Represented

/-!
# Runs of the study

A tree is created, keys are inserted one after the other, in any order and with repetitions, and in
the end the tree is destroyed.

* `study_builds`: **a legal B-tree of exactly these keys comes out**, and nothing goes wrong.
* `study_searches`: **both searches answer for every key**, on a path of logarithmic length.
* `study_frees`: **destroying frees every node that was allocated**, each once.
-/

namespace MiniDB.BtreeStudy

open BTree

variable {H : Heap} {root depth : ℕ} {t : AnyTree Int64}

/-- The keys that `main` inserts, in its order. -/
def mainKeys : List Int64 := [20, 40, 60, 80, 70, 10, 30, 15, 75, 85, 90, 25, 35, 50, 22, 27, 32]

/-- `btree_insert` for one key after the other. -/
def insertAll (fuel : ℕ) : List Int64 → ℕ × Heap → Run (ℕ × Heap)
  | [], s => .ok s
  | key :: keys, s => do insertAll fuel keys (← btreeInsert fuel s.2 s.1 key)

/-! ## One step -/

/-- What is in the tree behind an insertion. -/
theorem mem_keys_inserted (key x : Int64) (t : AnyTree Int64) (fresh : ℕ) :
    x ∈ (if key ∈ t.2.keys then t else (insertRoot maxKeys key t fresh).1).2.keys ↔
      x = key ∨ x ∈ t.2.keys := by
  by_cases hkey : key ∈ t.2.keys
  · rw [if_pos hkey]
    refine ⟨Or.inr, fun h => ?_⟩
    rcases h with rfl | h
    · exact hkey
    · exact h
  · rw [if_neg hkey]
    obtain ⟨front, back, hold, hnew⟩ := keys_insertRoot maxKeys key t fresh
    rw [hnew, hold]
    simp only [List.mem_append, List.mem_cons]
    tauto

/-- An insertion adds one key at most. -/
theorem length_keys_inserted (key : Int64) (t : AnyTree Int64) (fresh : ℕ) :
    (if key ∈ t.2.keys then t else (insertRoot maxKeys key t fresh).1).2.keys.length ≤
      t.2.keys.length + 1 := by
  by_cases hkey : key ∈ t.2.keys
  · rw [if_pos hkey]
    exact Nat.le_succ _
  · rw [if_neg hkey]
    obtain ⟨front, back, hold, hnew⟩ := keys_insertRoot maxKeys key t fresh
    rw [hnew, hold]
    simp only [List.length_append, List.length_cons]
    omega

/-- **The height of the tree** is logarithmic in the number of its keys. -/
theorem Represents.height_le (hr : Represents H root t)
    (hdepth : t.2.keys.length + 1 < 2 * 3 ^ (depth + 1)) : t.1 ≤ depth := by
  by_contra hlt
  have hpos : 1 ≤ t.2.kids.seps.length := hr.sized.pos (by omega)
  have hne : t.2.keys ≠ [] := by
    rw [MTree.keys_succ]
    intro hnil
    have hlen := length_inorder (f := MTree.keys) t.2.kids
    rw [hnil, List.length_nil] at hlen
    omega
  have hmany := hr.sized.height_le hne
  have hpow : 3 ^ (depth + 1) ≤ 3 ^ t.1 := Nat.pow_le_pow_right (by decide) (by omega)
  have hthree : minKeys + 1 = 3 := rfl
  rw [hthree] at hmany
  omega

/-! ## A run -/

/-- **Any run of insertions** into a tree. -/
theorem insertAll_represents : (keys : List Int64) → {H : Heap} → {root : ℕ} → {t : AnyTree Int64} →
    Represents H root t → t.2.keys.length + keys.length + 1 < 2 * 3 ^ (depth + 1) →
    ∃ root' H' t', insertAll (depth + 1) keys (root, H) = .ok (root', H') ∧ Represents H' root' t' ∧
      (∀ x, x ∈ t'.2.keys ↔ x ∈ keys ∨ x ∈ t.2.keys) ∧
      t'.2.keys.length ≤ t.2.keys.length + keys.length
  | [], H, root, t, hr, _ => ⟨root, H, t, rfl, hr, by simp, Nat.le_refl _⟩
  | key :: keys, H, root, t, hr, hdepth => by
    rw [List.length_cons] at hdepth
    have hheight : t.1 ≤ depth := hr.height_le (by omega)
    obtain ⟨root₁, H₁, hrun, hr₁⟩ := btreeInsert_represents hr (Nat.lt_succ_of_le hheight) key
    have hlen := length_keys_inserted key t H.next
    have hmem := fun x => mem_keys_inserted key x t H.next
    generalize (if key ∈ t.2.keys then t else (insertRoot maxKeys key t H.next).1) = t₁ at *
    obtain ⟨root', H', t', hrest, hr', hmem', hlen'⟩ := insertAll_represents keys hr₁ (by omega)
    refine ⟨root', H', t', ?_, hr', fun x => ?_, ?_⟩
    · rw [insertAll, hrun]
      exact hrest
    · rw [hmem', hmem, List.mem_cons]
      tauto
    · rw [List.length_cons]
      omega

/-- The tree behind the insertions, from the beginning. -/
theorem exists_built (keys : List Int64) (hdepth : keys.length + 1 < 2 * 3 ^ (depth + 1)) :
    ∃ root H t, insertAll (depth + 1) keys (btreeCreate Heap.empty) = .ok (root, H) ∧
      Represents H root t ∧ (∀ x, x ∈ t.2.keys ↔ x ∈ keys) ∧ t.1 ≤ depth := by
  obtain ⟨root, H, t, hrun, hr, hmem, hlen⟩ := insertAll_represents keys
    (represents_create Heap.empty fun _ => rfl) (by
      rw [MTree.keys_succ]
      exact (Nat.zero_add keys.length).symm ▸ hdepth)
  have hnil : ((⟨0, .node Heap.empty.next (.one .nil)⟩ : AnyTree Int64).2).keys = [] := rfl
  rw [hnil] at hmem hlen
  refine ⟨root, H, t, hrun, hr, fun x => ?_, hr.height_le ?_⟩
  · rw [hmem, or_iff_left List.not_mem_nil]
  · rw [List.length_nil, Nat.zero_add] at hlen
    omega

/-- **A legal B-tree of exactly these keys comes out** of inserting them, in whatever order. -/
theorem study_builds (keys : List Int64) (hdepth : keys.length + 1 < 2 * 3 ^ (depth + 1)) :
    ∃ root H t, insertAll (depth + 1) keys (btreeCreate Heap.empty) = .ok (root, H) ∧
      Represents H root t ∧ t.2.keys.Pairwise (· < ·) ∧ (∀ x, x ∈ t.2.keys ↔ x ∈ keys) ∧
      ∀ a, H.nodes a ≠ none ↔ a ∈ t.2.addrs := by
  obtain ⟨root, H, t, hrun, hr, hmem, -⟩ := exists_built keys hdepth
  exact ⟨root, H, t, hrun, hr, hr.ordered.between_keys.1, hmem, hr.nodes_iff⟩

theorem study_builds_main :
    ∃ root H t, insertAll 3 mainKeys (btreeCreate Heap.empty) = .ok (root, H) ∧
    Represents H root t ∧ t.2.keys.Pairwise (· < ·) ∧ (∀ x, x ∈ t.2.keys ↔ x ∈ mainKeys) ∧
    ∀ a, H.nodes a ≠ none ↔ a ∈ t.2.addrs := study_builds mainKeys (by decide)

/-- **Both searches answer for every key**, and visit one node of each level at most. -/
theorem study_searches (keys : List Int64) (hdepth : keys.length + 1 < 2 * 3 ^ (depth + 1)) :
    ∃ root H, insertAll (depth + 1) keys (btreeCreate Heap.empty) = .ok (root, H) ∧
      ∀ key, btreeSearch (depth + 1) H (some root) key = .ok (decide (key ∈ keys)) ∧
        btreeSearchRec (depth + 2) H (some root) key = .ok (decide (key ∈ keys)) := by
  obtain ⟨root, H, t, hrun, hr, hmem, hheight⟩ := exists_built keys hdepth
  obtain ⟨rfl, hst, hord, -⟩ := hr
  refine ⟨_, H, hrun, fun key => ?_⟩
  have hcontains : t.2.contains key = decide (key ∈ keys) := by
    rw [Bool.eq_iff_iff, MTree.contains_iff hord, decide_eq_true_eq, hmem]
  rw [← hcontains]
  exact ⟨btreeSearch_eq hst hord (by omega), btreeSearchRec_eq hst hord (by omega)⟩

theorem study_searches_main :
    ∃ root H, insertAll 3 mainKeys (btreeCreate Heap.empty) = .ok (root, H) ∧
    ∀ key, btreeSearch 3 H (some root) key = .ok (decide (key ∈ mainKeys)) ∧
      btreeSearchRec 4 H (some root) key = .ok (decide (key ∈ mainKeys)) :=
  study_searches mainKeys (by decide)

/-- **Destroying frees every node that was allocated**, each once. -/
theorem study_frees (keys : List Int64) (hdepth : keys.length + 1 < 2 * 3 ^ (depth + 1)) :
    ∃ root H H', insertAll (depth + 1) keys (btreeCreate Heap.empty) = .ok (root, H) ∧
      nodeDestroy (depth + 2) H (some root) = .ok H' ∧ ∀ a, H'.nodes a = none := by
  obtain ⟨root, H, t, hrun, hr, -, hheight⟩ := exists_built keys hdepth
  obtain ⟨rfl, hst, -, -, hown, honly⟩ := hr
  have hfuel : t.1 + 1 < depth + 2 := by omega
  obtain ⟨H', hdestroy, hfreed⟩ := nodeDestroy_frees hst hown.nodup hfuel
  refine ⟨_, H, H', hrun, hdestroy, fun a => ?_⟩
  by_cases ha : a ∈ t.2.addrs
  · exact hfreed.gone a ha
  · rw [hfreed.other a ha, honly a ha]

theorem study_frees_main :
    ∃ root H H', insertAll 3 mainKeys (btreeCreate Heap.empty) = .ok (root, H) ∧
      nodeDestroy 4 H (some root) = .ok H' ∧ ∀ a, H'.nodes a = none :=
  study_frees mainKeys (by decide)

end MiniDB.BtreeStudy
