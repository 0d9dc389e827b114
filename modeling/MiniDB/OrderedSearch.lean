import Mathlib.Order.Basic
import Mathlib.Order.Defs.LinearOrder
import Mathlib.Tactic.Ring
import Mathlib.Data.List.Range

/-!
# Searching an ascending sequence

Two searches over `n` keys given by their positions: a binary search that stops early on an exact
hit, and a linear scan from the end.  On an ascending sequence both find a cut: the binary search
the number of keys below the wanted one, the scan the number of keys not above it.  The two differ
exactly when the wanted key is present.

* `IsCut n p r`: `r` splits the positions below `n` into those with `p` and those without.
* `binarySearch`, `scanDown`: the searches.
* `isCut_binarySearch`, `isCut_scanDown`: what they find; `IsCut.eq_countP`: as a number of keys.
* `scanDown_eq_binarySearch_iff`: when the two agree.
* `checkedSearch`: the binary search with every step of its arithmetic and every look checked.
-/

variable {K : Type*} [LinearOrder K]

/-- The first `n` keys ascend strictly. -/
def AscendingTo (n : ℕ) (keyAt : ℕ → K) : Prop := ∀ i j, i < j → j < n → keyAt i < keyAt j

/-- `r` is the cut between the positions below `n` that satisfy `p` and those that do not. -/
structure IsCut (n : ℕ) (p : ℕ → Prop) (r : ℕ) : Prop where
  le : r ≤ n
  below : ∀ i < r, p i
  above : ∀ i, r ≤ i → i < n → ¬ p i

theorem IsCut.unique {n r r' : ℕ} {p : ℕ → Prop} (h : IsCut n p r) (h' : IsCut n p r') :
    r = r' := by
  rcases lt_trichotomy r r' with hlt | heq | hlt
  · exact absurd (h'.below r hlt) (h.above r le_rfl (lt_of_lt_of_le hlt h'.le))
  · exact heq
  · exact absurd (h.below r' hlt) (h'.above r' le_rfl (lt_of_lt_of_le hlt h.le))

/-- Binary search for `key` in the positions `low ≤ i < high`.  Every round shrinks the window, so
`fuel` rounds are enough for a window of `fuel` positions. -/
def binarySearch (keyAt : ℕ → K) (key : K) : ℕ → ℕ → ℕ → ℕ
  | 0, low, _ => low
  | fuel + 1, low, high =>
    if low < high then
      let mid := low + (high - low) / 2
      if keyAt mid = key then mid
      else if keyAt mid < key then binarySearch keyAt key fuel (mid + 1) high
      else binarySearch keyAt key fuel low mid
    else low

/-- The scan `i = n; while (i > 0 && keyAt (i - 1) > key) i--`. -/
def scanDown (keyAt : ℕ → K) (key : K) : ℕ → ℕ
  | 0 => 0
  | i + 1 => if key < keyAt i then scanDown keyAt key i else i + 1

/-- The window invariant of the binary search: everything left of `low` is below the key and
everything from `high` on is not. -/
theorem isCut_binarySearch_window {n : ℕ} {keyAt : ℕ → K} {key : K} (hasc : AscendingTo n keyAt)
    (fuel low high : ℕ) (hfuel : high - low ≤ fuel) (hle : low ≤ high) (hn : high ≤ n)
    (hlow : ∀ i < low, keyAt i < key) (hhigh : ∀ i, high ≤ i → i < n → ¬ keyAt i < key) :
    IsCut n (fun i => keyAt i < key) (binarySearch keyAt key fuel low high) := by
  induction fuel generalizing low high with
  | zero =>
    have heq : low = high := by omega
    exact ⟨by rw [binarySearch]; omega, hlow, by rw [binarySearch, heq]; exact hhigh⟩
  | succ fuel ih =>
    rw [binarySearch]
    split
    · next hlt =>
      have hmid_lt : low + (high - low) / 2 < high := by omega
      have hmid_ge : low ≤ low + (high - low) / 2 := by omega
      generalize low + (high - low) / 2 = mid at hmid_lt hmid_ge
      dsimp only
      split
      · next heq =>
        -- an exact hit: the keys before it are smaller, those from it on are not
        refine ⟨by omega, fun i hi => heq ▸ hasc i mid hi (by omega), fun i hi hin => ?_⟩
        rcases Nat.eq_or_lt_of_le hi with rfl | hlt'
        · simp [heq]
        · exact not_lt.mpr (heq ▸ (hasc mid i hlt' hin).le)
      · next hne =>
        split
        · next hbelow =>
          refine ih (mid + 1) high (by omega) (by omega) hn (fun i hi => ?_) hhigh
          rcases Nat.lt_succ_iff_lt_or_eq.mp hi with hi' | rfl
          · exact lt_trans (hasc i mid hi' (by omega)) hbelow
          · exact hbelow
        · next hnot =>
          refine ih low mid (by omega) hmid_ge (by omega) hlow (fun i hi hin => ?_)
          rcases Nat.eq_or_lt_of_le hi with rfl | hlt'
          · exact hnot
          · exact fun hlt'' => hnot (lt_trans (hasc mid i hlt' hin) hlt'')
    · next hge =>
      have heq : low = high := by omega
      exact ⟨by omega, hlow, by rw [heq]; exact hhigh⟩

/-- The binary search over all `n` keys returns the number of keys below `key`. -/
theorem isCut_binarySearch {n : ℕ} {keyAt : ℕ → K} (hasc : AscendingTo n keyAt) (key : K) :
    IsCut n (fun i => keyAt i < key) (binarySearch keyAt key n 0 n) :=
  isCut_binarySearch_window hasc n 0 n (by omega) (by omega) le_rfl
    (fun i hi => absurd hi (by omega)) (fun i hi hin => absurd hin (by omega))

/-- Whatever the keys are, the search stays in its window. -/
theorem binarySearch_le (keyAt : ℕ → K) (key : K) (fuel : ℕ) {low high : ℕ} (hle : low ≤ high) :
    binarySearch keyAt key fuel low high ≤ high := by
  induction fuel generalizing low high with
  | zero => exact hle
  | succ fuel ih =>
    rw [binarySearch]
    split
    · next hlt =>
      have hmid : low + (high - low) / 2 < high := by omega
      dsimp only
      split
      · exact hmid.le
      · split
        · exact ih hmid
        · exact (ih (Nat.le_add_right ..)).trans hmid.le
    · exact hle

/-- The scan from the end returns the number of keys not above `key`. -/
theorem isCut_scanDown {n : ℕ} {keyAt : ℕ → K} (hasc : AscendingTo n keyAt) (key : K) :
    IsCut n (fun i => keyAt i ≤ key) (scanDown keyAt key n) := by
  induction n with
  | zero => exact ⟨le_rfl, fun i hi => absurd hi (by simp [scanDown]),
    fun i _ hi => absurd hi (by omega)⟩
  | succ n ih =>
    have hasc' : AscendingTo n keyAt := fun i j hij hj => hasc i j hij (by omega)
    rw [scanDown]
    split
    · next hlt =>
      have hcut := ih hasc'
      refine ⟨Nat.le_succ_of_le hcut.le, hcut.below, fun i hi hin => ?_⟩
      rcases Nat.lt_succ_iff_lt_or_eq.mp hin with hin' | rfl
      · exact hcut.above i hi hin'
      · exact not_le.mpr hlt
    · next hge =>
      refine ⟨le_rfl, fun i hi => ?_, fun i hi hin => absurd hin (by omega)⟩
      rcases Nat.lt_succ_iff_lt_or_eq.mp hi with hi' | rfl
      · exact (lt_of_lt_of_le (hasc i n hi' (by omega)) (not_lt.mp hge)).le
      · exact not_lt.mp hge

/-- The two find the same cut exactly when the key is not among the keys. -/
theorem scanDown_eq_binarySearch_iff {n : ℕ} {keyAt : ℕ → K} (hasc : AscendingTo n keyAt)
    (key : K) : scanDown keyAt key n = binarySearch keyAt key n 0 n ↔ ∀ i < n, keyAt i ≠ key := by
  have hscan := isCut_scanDown hasc key
  have hsearch := isCut_binarySearch hasc key
  constructor
  · rintro heq i hi rfl
    -- the scan stops behind the key, the search in front of it
    have hbehind : i < scanDown keyAt (keyAt i) n := by
      by_contra hge
      exact hscan.above i (not_lt.mp hge) hi le_rfl
    rw [heq] at hbehind
    exact lt_irrefl _ (hsearch.below i hbehind)
  · intro hne
    have hsearch' : IsCut n (fun i => keyAt i ≤ key) (binarySearch keyAt key n 0 n) := by
      refine ⟨hsearch.le, fun i hi => (hsearch.below i hi).le, fun i hi hn hle => ?_⟩
      exact hsearch.above i hi hn (lt_of_le_of_ne hle (hne i hn))
    exact hscan.unique hsearch'

/-- A cut is the number of positions in front of it. -/
theorem IsCut.eq_countP {n r : ℕ} {p : ℕ → Prop} [DecidablePred p] (h : IsCut n p r) :
    r = (List.range n).countP p := by
  obtain ⟨m, rfl⟩ := Nat.exists_eq_add_of_le h.le
  have hbelow : (List.range r).countP p = r := by
    rw [List.countP_eq_length.mpr fun i hi => decide_eq_true (h.below i (List.mem_range.mp hi)),
      List.length_range]
  have habove : ((List.range m).map (r + ·)).countP p = 0 := by
    refine List.countP_eq_zero.mpr fun i hi => ?_
    obtain ⟨j, hj, rfl⟩ := List.mem_map.mp hi
    have hj := List.mem_range.mp hj
    exact fun hp => h.above _ (Nat.le_add_right ..) (by omega) (of_decide_eq_true hp)
  rw [List.range_add, List.countP_append, hbelow, habove, Nat.add_zero]

/-! ## In bounded arithmetic -/

/-- A sum that has to stay below a limit. -/
def addBelow (limit a b : ℕ) : Option ℕ := if a + b < limit then some (a + b) else none

/-- A difference that must not be negative. -/
def subChecked (a b : ℕ) : Option ℕ := if b ≤ a then some (a - b) else none

/-- A look at one of `n` keys. -/
def lookAt (n : ℕ) (keyAt : ℕ → K) (i : ℕ) : Option K := if i < n then some (keyAt i) else none

/-- The binary search in numbers below `limit`.  It answers `none` when a sum does not stay below
the limit, when a difference is negative, when it looks at a position that is not among the first
`n`, and when `fuel` rounds are not enough. -/
def checkedSearch (limit n : ℕ) (keyAt : ℕ → K) (key : K) : ℕ → ℕ → ℕ → Option ℕ
  | 0, low, high => if low < high then none else some low
  | fuel + 1, low, high =>
    if low < high then
      (subChecked high low).bind fun width =>
      (addBelow limit low (width / 2)).bind fun mid =>
      (lookAt n keyAt mid).bind fun found =>
        if found = key then some mid
        else if found < key then
          (addBelow limit mid 1).bind fun low => checkedSearch limit n keyAt key fuel low high
        else checkedSearch limit n keyAt key fuel low mid
    else some low

/-- Inside the first `n` keys, with `n` below the limit, no check fails. -/
theorem checkedSearch_window {limit n : ℕ} (keyAt : ℕ → K) (key : K) (hn : n < limit)
    (fuel low high : ℕ) (hfuel : high - low ≤ fuel) (hhigh : high ≤ n) :
    checkedSearch limit n keyAt key fuel low high =
      some (binarySearch keyAt key fuel low high) := by
  induction fuel generalizing low high with
  | zero =>
    have hdone : ¬ low < high := by omega
    rw [checkedSearch, if_neg hdone, binarySearch]
  | succ fuel ih =>
    rw [checkedSearch, binarySearch]
    split
    · next hlt =>
      have hsub : subChecked high low = some (high - low) := if_pos hlt.le
      have hadd : addBelow limit low ((high - low) / 2) = some (low + (high - low) / 2) :=
        if_pos (by omega)
      have hmid_lt : low + (high - low) / 2 < high := by omega
      have hmid_ge : low ≤ low + (high - low) / 2 := by omega
      simp only [hsub, hadd, Option.bind_some]
      generalize low + (high - low) / 2 = mid at hmid_lt hmid_ge
      have hlook : lookAt n keyAt mid = some (keyAt mid) := if_pos (by omega)
      have hnext : addBelow limit mid 1 = some (mid + 1) := if_pos (by omega)
      simp only [hlook, hnext, Option.bind_some]
      split
      · rfl
      · split
        · exact ih (mid + 1) high (by omega) hhigh
        · exact ih low mid (by omega) (by omega)
    · rfl

/-- The search over all keys ends within `n` rounds, and no check fails. -/
theorem checkedSearch_eq {limit n : ℕ} (keyAt : ℕ → K) (key : K) (hn : n < limit) :
    checkedSearch limit n keyAt key n 0 n = some (binarySearch keyAt key n 0 n) :=
  checkedSearch_window keyAt key hn n 0 n (by omega) le_rfl
