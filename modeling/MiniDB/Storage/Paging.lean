import MiniDB.Model.Pager
import Mathlib.Data.Set.Insert

/-!
# What the pager calls do

Fetching a page never changes what any page pointer leads to; it only moves pages into the cache and
counts them.  What a statement does to the pages is described by the set of pages it may write.

* `Pager.Sound`: the pager of a database that was opened and used without input errors.
* `pagerGetPage_of_lt`, `pagerGetPage_fresh`: fetching a page that exists, and the next one.
* `Pager.Evolves`: one state comes from another by writes to a set of pages.
-/

namespace MiniDB

namespace Pager

variable {s s' s'' : Pager} {n m : ℕ} {p : Page}

/-- The file is as long as the pager thinks, and only counted pages are cached. -/
structure Sound (s : Pager) : Prop where
  length : s.fileLength = s.disk.size
  cached : ∀ n, (s.pages n).isSome → n < s.numPages
  bounded : s.numPages ≤ tablesMaxPages

/-- `s'` is `s` with more pages in the cache. -/
structure SameView (s s' : Pager) : Prop where
  page : s'.page = s.page
  pageDirty : s'.pageDirty = s.pageDirty
  disk : s'.disk = s.disk
  fileLength : s'.fileLength = s.fileLength

theorem SameView.refl (s : Pager) : SameView s s := ⟨rfl, rfl, rfl, rfl⟩

theorem SameView.trans (h : SameView s s') (h' : SameView s' s'') : SameView s s'' :=
  ⟨h'.page.trans h.page, h'.pageDirty.trans h.pageDirty, h'.disk.trans h.disk,
    h'.fileLength.trans h.fileLength⟩

/-- `s'` is `s` after fetching pages that exist. -/
structure Fetched (s s' : Pager) : Prop extends SameView s s' where
  numPages : s'.numPages = s.numPages
  sound : s'.Sound

theorem Fetched.refl (h : s.Sound) : Fetched s s := ⟨SameView.refl s, rfl, h⟩

theorem Fetched.trans (h : Fetched s s') (h' : Fetched s' s'') : Fetched s s'' :=
  ⟨h.toSameView.trans h'.toSameView, h'.numPages.trans h.numPages, h'.sound⟩

/-! ## Writes -/

@[simp] theorem page_setPage (s : Pager) (n : ℕ) (p : Page) :
    (s.setPage n p).page = Function.update s.page n p := by
  funext m
  by_cases h : m = n
  · subst h
    simp [page, setPage]
  · simp only [page, setPage, Function.update_of_ne h]
    rfl

@[simp] theorem pageDirty_setPage (s : Pager) (n : ℕ) (p : Page) :
    (s.setPage n p).pageDirty = s.pageDirty := rfl

@[simp] theorem numPages_setPage (s : Pager) (n : ℕ) (p : Page) :
    (s.setPage n p).numPages = s.numPages := rfl

@[simp] theorem disk_setPage (s : Pager) (n : ℕ) (p : Page) : (s.setPage n p).disk = s.disk := rfl

@[simp] theorem fileLength_setPage (s : Pager) (n : ℕ) (p : Page) :
    (s.setPage n p).fileLength = s.fileLength := rfl

@[simp] theorem page_pagerMarkDirty (s : Pager) (n : ℕ) : (pagerMarkDirty s n).page = s.page := rfl

@[simp] theorem pageDirty_pagerMarkDirty (s : Pager) (n : ℕ) :
    (pagerMarkDirty s n).pageDirty = Function.update s.pageDirty n true := rfl

@[simp] theorem numPages_pagerMarkDirty (s : Pager) (n : ℕ) :
    (pagerMarkDirty s n).numPages = s.numPages := rfl

@[simp] theorem disk_pagerMarkDirty (s : Pager) (n : ℕ) : (pagerMarkDirty s n).disk = s.disk := rfl

@[simp] theorem fileLength_pagerMarkDirty (s : Pager) (n : ℕ) :
    (pagerMarkDirty s n).fileLength = s.fileLength := rfl

theorem Sound.setPage (h : s.Sound) (hn : n < s.numPages) : (s.setPage n p).Sound where
  length := h.length
  cached m hm := by
    by_cases heq : m = n
    · exact heq ▸ hn
    · exact h.cached m (by simpa [Pager.setPage, heq] using hm)
  bounded := h.bounded

theorem Sound.markDirty (h : s.Sound) : (pagerMarkDirty s n).Sound :=
  ⟨h.length, h.cached, h.bounded⟩

end Pager

/-! ## Fetching -/

section Fetch

variable {s : Pager} {n : ℕ}

open Pager

theorem pagerGetPage_cached (h : (s.pages n).isSome) (hn : n < tablesMaxPages) :
    pagerGetPage s n = some s := by
  rw [pagerGetPage, if_neg (not_le.mpr hn), if_pos h]

/-- A page that is not cached is read in; its contents do not depend on when that happens. -/
theorem pagerGetPage_uncached (hlen : s.fileLength = s.disk.size) (h : s.pages n = none)
    (hn : n < tablesMaxPages) :
    ∃ s', pagerGetPage s n = some s' ∧ SameView s s' ∧ s'.numPages = max s.numPages (n + 1) ∧
      (s'.pages n).isSome ∧ ∀ m, (s'.pages m).isSome → m = n ∨ (s.pages m).isSome := by
  refine ⟨{ s.setPage n (s.load n) with numPages := max s.numPages (n + 1) }, ?_, ?_, rfl, ?_, ?_⟩
  · have hread : ¬ (n < s.filePages ∧ min pageSize (s.disk.size - pageSize * n) ≠
        min pageSize (s.fileLength - pageSize * n)) := by
      rw [hlen]
      exact fun hne => hne.2 rfl
    simp only [pagerGetPage, if_neg (not_le.mpr hn), h, Option.isSome_none, if_neg hread,
      Bool.false_eq_true, if_false]
  · refine ⟨?_, rfl, rfl, rfl⟩
    have hload : s.page n = s.load n := by rw [page, h, Option.getD_none]
    show (s.setPage n (s.load n)).page = s.page
    rw [page_setPage, ← hload, Function.update_eq_self]
  · simp [setPage]
  · intro m hm
    by_cases heq : m = n
    · exact Or.inl heq
    · exact Or.inr (by simpa [setPage, heq] using hm)

/-- **A page that exists can be fetched**, and nothing but the cache changes. -/
theorem pagerGetPage_of_lt (hs : s.Sound) (hn : n < s.numPages) :
    ∃ s', pagerGetPage s n = some s' ∧ Fetched s s' := by
  have hmax : n < tablesMaxPages := lt_of_lt_of_le hn hs.bounded
  cases hc : s.pages n with
  | some p => exact ⟨s, pagerGetPage_cached (by rw [hc]; rfl) hmax, Fetched.refl hs⟩
  | none =>
    obtain ⟨s', hget, hview, hnum, -, hcached⟩ := pagerGetPage_uncached hs.length hc hmax
    have hnum' : s'.numPages = s.numPages := by omega
    refine ⟨s', hget, hview, hnum', ?_, fun m hm => ?_, by rw [hnum']; exact hs.bounded⟩
    · rw [hview.fileLength, hview.disk, hs.length]
    · rw [hnum']
      rcases hcached m hm with rfl | hm
      · exact hn
      · exact hs.cached m hm

/-- **The next page can be fetched** as long as there is one. -/
theorem pagerGetPage_fresh (hs : s.Sound) (hn : s.numPages < tablesMaxPages) :
    ∃ s', pagerGetPage s s.numPages = some s' ∧ SameView s s' ∧ s'.numPages = s.numPages + 1 ∧
      s'.Sound := by
  have hc : s.pages s.numPages = none := by
    rw [← Option.not_isSome_iff_eq_none]
    exact fun h => lt_irrefl _ (hs.cached _ h)
  obtain ⟨s', hget, hview, hnum, -, hcached⟩ := pagerGetPage_uncached hs.length hc hn
  have hnum' : s'.numPages = s.numPages + 1 := by omega
  refine ⟨s', hget, hview, hnum', ?_, fun m hm => ?_, by omega⟩
  · rw [hview.fileLength, hview.disk, hs.length]
  · rcases hcached m hm with rfl | hm
    · omega
    · have := hs.cached m hm
      omega

/-- Fetching a page shows no other bytes than before. -/
theorem page_pagerGetPage {s' : Pager} {k : ℕ} (h : pagerGetPage s k = some s') :
    s'.page = s.page := by
  unfold pagerGetPage at h
  split at h
  · cases h
  split at h
  · cases h
    rfl
  next hnone =>
    dsimp only at h
    split at h
    · cases h
    · cases h
      have hload : s.page k = s.load k := by
        rw [page, Option.not_isSome_iff_eq_none.mp hnone, Option.getD_none]
      show (s.setPage k (s.load k)).page = s.page
      rw [page_setPage, ← hload, Function.update_eq_self]

/-- Fetching never lowers the count of pages. -/
theorem numPages_pagerGetPage {s' : Pager} (h : pagerGetPage s n = some s') :
    s.numPages ≤ s'.numPages := by
  unfold pagerGetPage at h
  split at h
  · cases h
  split at h
  · cases h
    exact le_rfl
  · dsimp only at h
    split at h
    · cases h
    · cases h
      exact le_max_left ..

/-- Only page numbers below the limit are fetched. -/
theorem lt_of_pagerGetPage {s' : Pager} (h : pagerGetPage s n = some s') : n < tablesMaxPages := by
  unfold pagerGetPage at h
  split at h
  · cases h
  next hn => exact not_le.mp hn

theorem pagerGetPage_none (hn : tablesMaxPages ≤ n) : pagerGetPage s n = none := by
  rw [pagerGetPage, if_pos hn]

end Fetch

/-! ## Frames -/

namespace Pager

variable {s s' s'' : Pager} {S T : Set ℕ}

/-- `s'` comes from `s` by writes to pages in `S`; every page that was written is dirty, unless it
is in `M`. -/
structure Evolves (s s' : Pager) (S M : Set ℕ) : Prop where
  page : ∀ p, p ∉ S → s'.page p = s.page p
  tracked : ∀ p, p ∉ M → s'.page p = s.page p ∨ s'.pageDirty p = true
  pageDirty : ∀ p, s.pageDirty p = true → s'.pageDirty p = true
  disk : s'.disk = s.disk
  fileLength : s'.fileLength = s.fileLength
  numPages : s.numPages ≤ s'.numPages
  sound : s'.Sound

variable {M N : Set ℕ}

theorem SameView.evolves (h : SameView s s') (hn : s.numPages ≤ s'.numPages) (hs : s'.Sound) :
    Evolves s s' S M where
  page p _ := by rw [h.page]
  tracked p _ := Or.inl (by rw [h.page])
  pageDirty p hp := by rw [h.pageDirty]; exact hp
  disk := h.disk
  fileLength := h.fileLength
  numPages := hn
  sound := hs

theorem Fetched.evolves (h : Fetched s s') : Evolves s s' S M :=
  h.toSameView.evolves h.numPages.ge h.sound

theorem Evolves.refl (hs : s.Sound) : Evolves s s S M := (SameView.refl s).evolves le_rfl hs

theorem Evolves.mono (h : Evolves s s' S M) (hST : S ⊆ T) (hMN : M ⊆ N) : Evolves s s' T N where
  page p hp := h.page p fun hS => hp (hST hS)
  tracked p hp := h.tracked p fun hM => hp (hMN hM)
  pageDirty := h.pageDirty
  disk := h.disk
  fileLength := h.fileLength
  numPages := h.numPages
  sound := h.sound

theorem Evolves.trans (h : Evolves s s' S M) (h' : Evolves s' s'' S M) : Evolves s s'' S M where
  page p hp := (h'.page p hp).trans (h.page p hp)
  tracked p hp := by
    rcases h'.tracked p hp with heq | hd
    · rcases h.tracked p hp with heq' | hd
      · exact Or.inl (heq.trans heq')
      · exact Or.inr (h'.pageDirty p hd)
    · exact Or.inr hd
  pageDirty p hp := h'.pageDirty p (h.pageDirty p hp)
  disk := h'.disk.trans h.disk
  fileLength := h'.fileLength.trans h.fileLength
  numPages := h.numPages.trans h'.numPages
  sound := h'.sound

/-- A page that was dirty before need not be excused. -/
theorem Evolves.excuse (h : Evolves s s' S M) (hM : ∀ q ∈ M, q ∈ N ∨ s.pageDirty q = true) :
    Evolves s s' S N where
  page := h.page
  tracked q hq := by
    by_cases hqM : q ∈ M
    · exact Or.inr (h.pageDirty q ((hM q hqM).resolve_left hq))
    · exact h.tracked q hqM
  pageDirty := h.pageDirty
  disk := h.disk
  fileLength := h.fileLength
  numPages := h.numPages
  sound := h.sound

/-- Write a page that may be written; it need not be dirty yet. -/
theorem Evolves.setPage {n : ℕ} {p : Page} (h : Evolves s s' S M) (hn : n < s'.numPages)
    (hS : n ∈ S) (hM : n ∈ M) : Evolves s (s'.setPage n p) S M where
  page q hq := by
    have hne : q ≠ n := fun heq => hq (heq ▸ hS)
    rw [page_setPage, Function.update_of_ne hne]
    exact h.page q hq
  tracked q hq := by
    have hne : q ≠ n := fun heq => hq (heq ▸ hM)
    rw [page_setPage, Function.update_of_ne hne]
    exact h.tracked q hq
  pageDirty := h.pageDirty
  disk := h.disk
  fileLength := h.fileLength
  numPages := h.numPages
  sound := h.sound.setPage hn

/-- Write a page that is dirty already. -/
theorem Evolves.setPage_dirty {n : ℕ} {p : Page} (h : Evolves s s' S M) (hn : n < s'.numPages)
    (hS : n ∈ S) (hd : s'.pageDirty n = true) : Evolves s (s'.setPage n p) S M where
  page q hq := by
    have hne : q ≠ n := fun heq => hq (heq ▸ hS)
    rw [page_setPage, Function.update_of_ne hne]
    exact h.page q hq
  tracked q hq := by
    by_cases heq : q = n
    · exact Or.inr (heq ▸ hd)
    · rw [page_setPage, Function.update_of_ne heq]
      exact h.tracked q hq
  pageDirty := h.pageDirty
  disk := h.disk
  fileLength := h.fileLength
  numPages := h.numPages
  sound := h.sound.setPage hn

/-- A page that has been marked need not be excused any more. -/
theorem Evolves.markDirty {n : ℕ} (h : Evolves s s' S M) :
    Evolves s (pagerMarkDirty s' n) S (M \ {n}) where
  page := h.page
  tracked q hq := by
    by_cases heq : q = n
    · exact Or.inr (by rw [pageDirty_pagerMarkDirty, heq, Function.update_self])
    · rcases h.tracked q (fun hM => hq ⟨hM, heq⟩) with hp | hd
      · exact Or.inl hp
      · exact Or.inr (by rw [pageDirty_pagerMarkDirty, Function.update_of_ne heq]; exact hd)
  pageDirty q hq := by
    rw [pageDirty_pagerMarkDirty]
    by_cases heq : q = n
    · rw [heq, Function.update_self]
    · rw [Function.update_of_ne heq]
      exact h.pageDirty q hq
  disk := h.disk
  fileLength := h.fileLength
  numPages := h.numPages
  sound := h.sound.markDirty

/-- The mark that was owed. -/
theorem Evolves.settle {n : ℕ} (h : Evolves s s' S {n}) :
    Evolves s (pagerMarkDirty s' n) S ∅ := by
  refine h.markDirty.mono (fun q hq => hq) ?_
  rintro q ⟨hq, hq'⟩
  exact absurd hq hq'

/-- A page is written and marked. -/
theorem Evolves.write {n : ℕ} {p : Page} (h : Evolves s s' S {n}) (hn : n < s'.numPages)
    (hS : n ∈ S) : Evolves s (pagerMarkDirty (s'.setPage n p) n) S ∅ :=
  (h.setPage hn hS rfl).settle

theorem Evolves.fetched (h : Evolves s s' S M) (hf : Fetched s' s'') : Evolves s s'' S M :=
  h.trans hf.evolves

end Pager

end MiniDB
