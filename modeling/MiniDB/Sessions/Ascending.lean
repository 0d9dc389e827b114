import MiniDB.BPlusTree.Levels
import MiniDB.Sessions.OneTable

/-!
# Rows in ascending order

The database that results from inserting the rows with the keys `1` to `n` in this order: every
second row splits the last leaf, and the root takes one separator more.

* `ladder`, `ascending`: the tree of the rows `1` to `n`.
* `afterInsert_ascending`, `afterInsert_full`: the next row, when the root has room and when not.
* `exists_ascending`: **the database is reachable**, as long as the root has room.
-/

namespace MiniDB

open BPlusTree Pager

/-- The key of row `i`. -/
def rowKey (i : ℕ) : Int64 := Int64.ofNat i

/-- The page of the leaf that starts with row `i`. -/
def rowPage : ℕ → ℕ
  | 0 => 0
  | 1 => 3
  | 2 => 2
  | i + 3 => i + 4

/-- The leaves from row `i` on: `m` with one row each, and the last one with two. -/
def ladder (i : ℕ) : ℕ → Kids Int64 (PageTree 0)
  | 0 => .one (.leaf (rowPage i) [notesCell (rowKey i), notesCell (rowKey (i + 1))])
  | m + 1 => .cons (.leaf (rowPage i) [notesCell (rowKey i)]) (rowKey (i + 1)) (ladder (i + 1) m)

/-- The tree of the rows `1` to `m + 3`. -/
def ascending (m : ℕ) : PageTreeAny := ⟨1, .node 1 (ladder 1 (m + 1))⟩

theorem rowKey_lt {i j : ℕ} (hj : j < 1000) (h : i < j) : rowKey i < rowKey j := by
  unfold rowKey
  rw [Int64.lt_iff_toInt_lt, Int64.toInt_ofNat_of_lt (by omega), Int64.toInt_ofNat_of_lt (by omega)]
  exact Int.ofNat_lt.mpr h

theorem length_seps_ladder (i m : ℕ) : (ladder i m).seps.length = m := by
  induction m generalizing i with
  | zero => rfl
  | succ m ih =>
    unfold ladder
    rw [Kids.seps_cons, List.length_cons, ih]

/-- The last leaf is the one for a larger key. -/
theorem pick_ladder {i m k : ℕ} (hk : k < 1000) (hlt : i + m < k) :
    (ladder i m).pick (rowKey k) = .leaf (rowPage (i + m))
      [notesCell (rowKey (i + m)), notesCell (rowKey (i + m + 1))] := by
  induction m generalizing i with
  | zero => rfl
  | succ m ih =>
    unfold ladder Kids.pick
    have hkey := rowKey_lt hk (show i + 1 < k by omega)
    rw [if_neg (not_lt.mpr hkey.le), ih (by omega)]
    have heq : i + 1 + m = i + (m + 1) := by omega
    rw [heq]

/-- All separators are smaller. -/
theorem seps_ladder_lt {i m k : ℕ} (hk : k < 1000) (hlt : i + m < k) :
    ∀ s ∈ (ladder i m).seps, s < rowKey k := by
  induction m generalizing i with
  | zero => exact fun s hs => absurd hs List.not_mem_nil
  | succ m ih =>
    intro s hs
    unfold ladder at hs
    rw [Kids.seps_cons] at hs
    rcases List.mem_cons.mp hs with rfl | hs
    · exact rowKey_lt hk (by omega)
    · exact ih (by omega) s hs

/-- The last leaf is split over the next row. -/
theorem place_ladder {i m k : ℕ} (hk : k < 1000) (hlt : i + m + 2 = k) :
    (ladder i m).place (rowKey k) (.cons (.leaf (rowPage (i + m)) [notesCell (rowKey (i + m))])
      (rowKey (i + m + 1)) (.one (.leaf (rowPage (i + m + 1))
        [notesCell (rowKey (i + m + 1)), notesCell (rowKey (i + m + 2))]))) =
      ladder i (m + 1) := by
  induction m generalizing i with
  | zero => rfl
  | succ m ih =>
    have hkey := rowKey_lt hk (show i + 1 < k by omega)
    have heq : i + 1 + m = i + (m + 1) := by omega
    have hrest := ih (i := i + 1) (by omega)
    rw [heq] at hrest
    rw [ladder, Kids.place, if_neg (not_lt.mpr hkey.le), hrest]
    rfl

/-- The next row on a full leaf. -/
theorem insertLeaf_next (page fresh : ℕ) {i k : ℕ} (hk : k < 1000) (hlt : i + 1 < k) :
    insertLeaf 2 (rowKey k) (notesCell (rowKey k)).2 fresh
        (.leaf page [notesCell (rowKey i), notesCell (rowKey (i + 1))]) =
      (.split (.leaf page [notesCell (rowKey i)]) (rowKey (i + 1))
        (.leaf fresh [notesCell (rowKey (i + 1)), notesCell (rowKey k)]), fresh + 1) := by
  have h₁ : ¬ rowKey k < (notesCell (rowKey i)).1 := not_lt.mpr (rowKey_lt hk (by omega)).le
  have h₂ : ¬ rowKey k < (notesCell (rowKey (i + 1))).1 := not_lt.mpr (rowKey_lt hk hlt).le
  unfold insertLeaf
  rw [Tree.cells_leaf, insertCell, if_neg h₁, insertCell, if_neg h₂]
  rfl

/-- The children of the root with the next row. -/
theorem rootKids_ladder {m : ℕ} (hk : m + 4 < 1000) :
    rootKids 2 internalNodeMaxKeys (rowKey (m + 4)) (notesCell (rowKey (m + 4))).2 (m + 4)
      (.node 1 (ladder 1 (m + 1))) = (ladder 1 (m + 2), m + 5) := by
  have hpick := pick_ladder (i := 1) (m := m + 1) hk (by omega)
  have hplace := place_ladder (i := 1) (m := m + 1) hk (by omega)
  have hleaf := insertLeaf_next (rowPage (1 + (m + 1))) (m + 4) (i := 1 + (m + 1)) hk (by omega)
  have hpage : rowPage (1 + (m + 1) + 1) = m + 4 := by
    have heq : 1 + (m + 1) + 1 = m + 3 := by omega
    rw [heq]
    rfl
  have hkey : 1 + (m + 1) + 2 = m + 4 := by omega
  rw [hpage, hkey] at hplace
  unfold rootKids
  rw [Tree.kids_node, hpick]
  show ((ladder 1 (m + 1)).place _ (insertLeaf _ _ _ _ _).1.kids, (insertLeaf _ _ _ _ _).2) = _
  rw [hleaf]
  exact Prod.ext hplace rfl

/-- **The next row.** -/
theorem afterInsert_ascending {m : ℕ} (hm : m + 2 ≤ internalNodeMaxKeys) :
    afterInsert notes (m + 4) (rowKey (m + 4)) (notesRow (rowKey (m + 4))) (ascending m) =
      (ascending (m + 1), m + 5) := by
  have hmax := internalNodeMaxKeys_eq
  have hkids := rootKids_ladder (m := m) (by omega)
  unfold afterInsert
  rw [leafNodeMaxCells_notes]
  rcases insertRoot_node_cases 2 internalNodeMaxKeys (rowKey (m + 4))
    (notesCell (rowKey (m + 4))).2 (m + 4) (.node 1 (ladder 1 (m + 1))) with
    ⟨-, heq⟩ | ⟨hgt, -⟩
  · rw [hkids] at heq
    exact heq
  · rw [hkids, length_seps_ladder] at hgt
    exact absurd hgt (not_lt.mpr hm)

/-- **The row that splits the root**: the leaf on page 3 goes to the left half. -/
theorem afterInsert_full {m : ℕ} (hm : m + 1 = internalNodeMaxKeys) :
    ∃ l p r, afterInsert notes (m + 4) (rowKey (m + 4)) (notesRow (rowKey (m + 4))) (ascending m) =
        (⟨2, .node 1 (.cons (.node (m + 5) l) p (.one (.node (m + 6) r)))⟩, m + 7) ∧
      l.append p r = ladder 1 (m + 2) ∧ l.head.page = 3 := by
  have hmax := internalNodeMaxKeys_eq
  have hkids := rootKids_ladder (m := m) (by omega)
  unfold afterInsert
  rw [leafNodeMaxCells_notes]
  rcases insertRoot_node_cases 2 internalNodeMaxKeys (rowKey (m + 4))
    (notesCell (rowKey (m + 4))).2 (m + 4) (.node 1 (ladder 1 (m + 1))) with
    ⟨hle, -⟩ | ⟨-, l, p, r, happend, -, heq⟩
  · rw [hkids, length_seps_ladder] at hle
    omega
  · rw [hkids] at happend heq
    refine ⟨l, p, r, heq, happend.symm, ?_⟩
    rw [← Kids.head_append l p r, ← happend]
    rfl

/-- The row behind that one goes into the last leaf. -/
theorem pick_behind {m : ℕ} {l r : Kids Int64 (PageTree 0)} {p : Int64} (hk : m + 5 < 1000)
    (happend : l.append p r = ladder 1 (m + 2)) :
    p ≤ rowKey (m + 5) ∧ r.pick (rowKey (m + 5)) =
      .leaf (rowPage (m + 3)) [notesCell (rowKey (m + 3)), notesCell (rowKey (m + 4))] := by
  have hseps := seps_ladder_lt (i := 1) (m := m + 2) hk (by omega)
  rw [← happend, Kids.seps_append] at hseps
  have hp := (hseps p (List.mem_append_right _ List.mem_cons_self)).le
  have hl : ∀ s ∈ l.seps, s ≤ rowKey (m + 5) := fun s hs =>
    (hseps s (List.mem_append_left _ hs)).le
  have hpick := pick_ladder (i := 1) (m := m + 2) hk (by omega)
  rw [← happend, Kids.pick_append_of_le hl hp] at hpick
  have hrow : 1 + (m + 2) = m + 3 := by omega
  rw [hrow] at hpick
  exact ⟨hp, hpick⟩

/-- The leaf for the next row. -/
theorem leafFor_ascending {m : ℕ} (hk : m + 4 < 1000) :
    (ascending m).2.leafFor (rowKey (m + 4)) =
      ⟨rowPage (m + 2), [notesCell (rowKey (m + 2)), notesCell (rowKey (m + 3))]⟩ := by
  have hpick := pick_ladder (i := 1) (m := m + 1) hk (by omega)
  have h₁ : 1 + (m + 1) = m + 2 := by omega
  rw [h₁] at hpick
  show ((ladder 1 (m + 1)).pick (rowKey (m + 4))).leafFor (rowKey (m + 4)) = _
  rw [hpick]
  rfl

/-- Its key is new. -/
theorem key_ne_ascending {m : ℕ} (hk : m + 4 < 1000) :
    ∀ a ∈ ((ascending m).2.leafFor (rowKey (m + 4))).cells, a.1 ≠ rowKey (m + 4) := by
  rw [leafFor_ascending hk]
  intro a ha
  rcases List.mem_cons.mp ha with rfl | ha
  · exact (rowKey_lt hk (by omega)).ne
  · rw [List.mem_singleton.mp ha]
    exact (rowKey_lt hk (by omega)).ne

/-- The first row, and the second. -/
theorem exists_two : ∃ s, Reachable Finishes s ∧ OneTable s notesName notes validNotes
    ⟨0, .leaf 1 [notesCell (rowKey 1), notesCell (rowKey 2)]⟩ ∧ s.numPages = 2 := by
  obtain ⟨s₀, hreach₀, h₀, hnum₀⟩ := exists_notes
  obtain ⟨s₁, hreach₁, h₁, hnum₁⟩ := h₀.insert_notes hreach₀ (rowKey 1)
    (fun a ha => absurd ha List.not_mem_nil) ⟨0, .leaf 1 [notesCell (rowKey 1)]⟩ 2
    (by rw [hnum₀]; rfl) (by decide)
  exact h₁.insert_notes hreach₁ (rowKey 2)
    (fun a ha => by rw [List.mem_singleton.mp ha]; decide)
    ⟨0, .leaf 1 [notesCell (rowKey 1), notesCell (rowKey 2)]⟩ 2 (by rw [hnum₁]; rfl) (by decide)

/-- The third row splits the leaf that is the root under itself. -/
theorem exists_three : ∃ s, Reachable Finishes s ∧
    OneTable s notesName notes validNotes (ascending 0) ∧ s.numPages = 4 := by
  obtain ⟨s, hreach, h, hnum⟩ := exists_two
  refine h.insert_notes hreach (rowKey 3) ?_ (ascending 0) 4 (by rw [hnum]; rfl) (by decide)
  intro a ha
  rcases List.mem_cons.mp ha with rfl | ha
  · decide
  · rw [List.mem_singleton.mp ha]
    decide

/-- **The rows `1` to `m + 3`**, as long as the root has room for their separators. -/
theorem exists_ascending {m : ℕ} (hm : m + 1 ≤ internalNodeMaxKeys) : ∃ s, Reachable Finishes s ∧
    OneTable s notesName notes validNotes (ascending m) ∧ s.numPages = m + 4 := by
  induction m with
  | zero => exact exists_three
  | succ m ih =>
    obtain ⟨s, hreach, h, hnum⟩ := ih (by omega)
    have hmax := internalNodeMaxKeys_eq
    have hk : m + 4 < 1000 := by omega
    refine h.insert_notes hreach (rowKey (m + 4)) (key_ne_ascending hk) (ascending (m + 1)) (m + 5)
      ?_ ?_
    · rw [hnum]
      exact afterInsert_ascending hm
    · have htab : tablesMaxPages = 20000 := rfl
      omega

end MiniDB
