import MiniDB.Model.Catalog
import MiniDB.Storage.Paging

/-!
# Closing a database and opening it again

`pager_close` writes the dirty pages to the file, one after the other; opening the file again leaves
every page to be read from there.

* `Disk.Whole`: a file of whole pages, as the pager writes it.
* `byte_pagerClose`: **what the file holds after closing**: the dirty pages as they were in memory,
  and the others as they were in the file.
* `openDatabase_whole`: what opening such a file gives.
-/

namespace MiniDB

open Pager

/-- A file of whole pages, no more than the pager has room for. -/
structure Disk.Whole (d : Disk) : Prop where
  pages : pageSize ∣ d.size
  bounded : d.size ≤ pageSize * tablesMaxPages
  zero : ∀ k, d.size ≤ k → d.bytes k = 0

/-- Byte `i` of page `q` of a file. -/
def Disk.byte (d : Disk) (q i : ℕ) : UInt8 := d.bytes (pageSize * q + i)

variable {s : Pager} {d : Disk} {p : Page} {q m i : ℕ}

/-- A page of the file that holds anything is a whole page. -/
theorem Disk.Whole.page_lt (h : d.Whole) (hbyte : d.byte q i ≠ 0) :
    q < d.size / pageSize := by
  have hlt : pageSize * q + i < d.size := by
    by_contra hge
    exact hbyte (h.zero _ (not_lt.mp hge))
  obtain ⟨k, hk⟩ := h.pages
  have hpos : 0 < pageSize := by decide
  rw [hk, Nat.mul_div_cancel_left k hpos]
  rw [hk] at hlt
  exact Nat.lt_of_mul_lt_mul_left (Nat.lt_of_le_of_lt (Nat.le_add_right _ _) hlt)

/-! ## Writing a page -/

theorem byte_pagerFlush_self (hi : i < pageSize) : (pagerFlush d q p).byte q i = p i := by
  have hlt : i < (p.read 0 pageSize).length := by rwa [Mem.length_read]
  have hbyte := Mem.write_apply_of_mem (m := d.bytes) (a := q * pageSize) hlt
  rw [Mem.getElem_read, Nat.zero_add, Nat.mul_comm] at hbyte
  rw [Disk.byte, pagerFlush, Nat.mul_comm q]
  exact hbyte

theorem byte_pagerFlush_of_ne (hm : m ≠ q) (hi : i < pageSize) :
    (pagerFlush d q p).byte m i = d.byte m i := by
  refine Mem.write_apply_of_not_mem ?_
  rw [Mem.length_read]
  unfold pageSize at hi ⊢
  omega

theorem Disk.Whole.flush (h : d.Whole) (hq : q < tablesMaxPages) : (pagerFlush d q p).Whole := by
  have hend : q * pageSize + pageSize = pageSize * (q + 1) := by ring
  refine ⟨?_, ?_, ?_⟩
  · show pageSize ∣ max d.size (q * pageSize + pageSize)
    rw [hend]
    rcases max_choice d.size (pageSize * (q + 1)) with heq | heq
    · rw [heq]
      exact h.pages
    · rw [heq]
      exact dvd_mul_right ..
  · show max d.size (q * pageSize + pageSize) ≤ _
    rw [hend]
    exact max_le h.bounded (Nat.mul_le_mul_left _ hq)
  · intro k hk
    obtain ⟨hold, hnew⟩ := max_le_iff.mp (show max d.size (q * pageSize + pageSize) ≤ k from hk)
    have hout : q * pageSize + (p.read 0 pageSize).length ≤ k := by rwa [Mem.length_read]
    exact (Mem.write_apply_of_not_mem (Or.inr hout)).trans (h.zero k hold)

/-! ## Closing -/

/-- Flush those pages of a list that are dirty. -/
def flushPages (s : Pager) (d : Disk) (pages : List ℕ) : Disk :=
  pages.foldl (fun d i => if s.pageDirty i then pagerFlush d i (s.page i) else d) d

theorem pagerClose_eq (s : Pager) :
    pagerClose s = flushPages s s.disk (List.range tablesMaxPages) :=
  rfl

theorem flushPages_cons (s : Pager) (d : Disk) (q : ℕ) (pages : List ℕ) :
    flushPages s d (q :: pages) =
      flushPages s (if s.pageDirty q then pagerFlush d q (s.page q) else d) pages := rfl

theorem Disk.Whole.flushPages {pages : List ℕ} (h : d.Whole)
    (hp : ∀ q ∈ pages, q < tablesMaxPages) :
    (flushPages s d pages).Whole := by
  induction pages generalizing d with
  | nil => exact h
  | cons q pages ih =>
    rw [flushPages_cons]
    refine ih ?_ fun m hm => hp m (List.mem_cons_of_mem _ hm)
    split
    · exact h.flush (hp q List.mem_cons_self)
    · exact h

theorem byte_flushPages (pages : List ℕ) (hi : i < pageSize) : (flushPages s d pages).byte q i =
    if q ∈ pages ∧ s.pageDirty q = true then s.page q i else d.byte q i := by
  induction pages generalizing d with
  | nil => rfl
  | cons m pages ih =>
    rw [flushPages_cons, ih]
    by_cases hmem : q ∈ pages ∧ s.pageDirty q = true
    · rw [if_pos hmem, if_pos ⟨List.mem_cons_of_mem _ hmem.1, hmem.2⟩]
    rw [if_neg hmem]
    by_cases hqm : q = m
    · subst hqm
      by_cases hdirty : s.pageDirty q = true
      · rw [if_pos hdirty, if_pos ⟨List.mem_cons_self, hdirty⟩, byte_pagerFlush_self hi]
      · rw [if_neg hdirty, if_neg fun h => hdirty h.2]
    · have hcons : ¬ (q ∈ m :: pages ∧ s.pageDirty q = true) := fun h =>
        hmem ⟨(List.mem_cons.mp h.1).resolve_left hqm, h.2⟩
      rw [if_neg hcons]
      split
      · exact byte_pagerFlush_of_ne hqm hi
      · rfl

/-- The file ends where it ended before, or behind a dirty page. -/
theorem size_flushPages {pages : List ℕ} (hd : d.size ≤ pageSize * m)
    (hdirty : ∀ q, s.pageDirty q = true → q < m) : (flushPages s d pages).size ≤ pageSize * m := by
  induction pages generalizing d with
  | nil => exact hd
  | cons q pages ih =>
    rw [flushPages_cons]
    refine ih ?_
    split
    · next hq =>
      refine max_le hd ?_
      calc q * pageSize + pageSize = pageSize * (q + 1) := by ring
        _ ≤ pageSize * m := Nat.mul_le_mul_left _ (hdirty q hq)
    · exact hd

/-- **What the file holds after closing.** -/
theorem byte_pagerClose (hq : q < tablesMaxPages) (hi : i < pageSize) : (pagerClose s).byte q i =
    if s.pageDirty q = true then s.page q i else s.disk.byte q i := by
  rw [pagerClose_eq, byte_flushPages _ hi]
  simp only [List.mem_range, hq, true_and]

theorem size_pagerClose (hd : s.disk.size ≤ pageSize * m)
    (hdirty : ∀ q, s.pageDirty q = true → q < m) : (pagerClose s).size ≤ pageSize * m :=
  size_flushPages hd hdirty

theorem Disk.Whole.pagerClose (h : s.disk.Whole) : (pagerClose s).Whole :=
  h.flushPages fun _ hq => List.mem_range.mp hq

/-! ## Opening -/

/-- A page that is read in is what the file holds. -/
theorem load_eq (hs : s.fileLength = s.disk.size) (hd : s.disk.Whole) (hi : i < pageSize) :
    s.load q i = s.disk.byte q i := by
  unfold Pager.load
  split
  · rfl
  · next hnot =>
    refine (hd.zero _ (not_lt.mp fun hlt => hnot ⟨?_, hi, hlt⟩)).symm
    -- a file of so few pages does not make the sum wrap
    have hbounded : s.disk.size ≤ 4096 * 20000 := hd.bounded
    unfold Pager.filePages
    rw [hs, Nat.mod_eq_of_lt (by unfold pageSize; omega)]
    unfold pageSize at hi hlt ⊢
    omega

theorem page_catalogNodeInit (p : Page) (hi : i < pageSize) : catalogNodeInit p i = 0 := by
  have hlt : i < (List.replicate pageSize (0 : UInt8)).length := by rwa [List.length_replicate]
  have hbyte := Mem.write_apply_of_mem (m := p) (a := 0) hlt
  rw [Nat.zero_add, List.getElem_replicate] at hbyte
  exact hbyte

/-- **A file of whole pages is opened**, and every page is as in the file. -/
theorem openDatabase_whole (h : d.Whole) : ∃ s, openDatabase d = some s ∧ s.Sound ∧ s.disk = d ∧
    s.numPages = max (d.size / pageSize) 1 ∧ (∀ q, s.pageDirty q = false) ∧
    ∀ q, ∀ i < pageSize, s.page q i = d.byte q i := by
  have hbounded : d.size ≤ 4096 * 20000 := h.bounded
  have hlength : (pagerOpen d).fileLength = d.size := Nat.mod_eq_of_lt (by omega)
  have hs : (pagerOpen d).Sound := by
    refine ⟨hlength, ?_, ?_⟩
    · intro n hn
      cases hn
    · exact Nat.div_le_of_le_mul hbounded
  have hpage : ∀ q, ∀ i < pageSize, (pagerOpen d).page q i = d.byte q i := fun q i hi =>
    load_eq hlength h hi
  obtain ⟨s, hget, hview, hnum, hsound⟩ : ∃ s, pagerGetPage (pagerOpen d) 0 = some s ∧
      SameView (pagerOpen d) s ∧ s.numPages = max (d.size / pageSize) 1 ∧ s.Sound := by
    rcases Nat.eq_zero_or_pos (pagerOpen d).numPages with hzero | hpos
    · have hfresh := pagerGetPage_fresh hs (by rw [hzero]; decide)
      rw [hzero] at hfresh
      obtain ⟨s, hget, hview, hnum, hsound⟩ := hfresh
      have hnum' : d.size / pageSize = 0 := hzero
      exact ⟨s, hget, hview, by omega, hsound⟩
    · obtain ⟨s, hget, hf⟩ := pagerGetPage_of_lt hs hpos
      have hnum' : s.numPages = d.size / pageSize := hf.numPages
      have hpos' : 0 < d.size / pageSize := hpos
      exact ⟨s, hget, hf.toSameView, by omega, hf.sound⟩
  have hopen : openDatabase d = if d.size = 0 then some (s.setPage 0 (catalogNodeInit (s.page 0)))
      else some s := by
    unfold openDatabase
    show (pagerGetPage (pagerOpen d) 0).bind _ = _
    rw [hget]
    show (if (pagerOpen d).fileLength = 0 then _ else _) = _
    rw [hlength]
    rfl
  by_cases hempty : d.size = 0
  · rw [if_pos hempty] at hopen
    refine ⟨_, hopen, hsound.setPage (by omega), hview.disk, hnum, ?_, ?_⟩
    · exact fun q => congrFun hview.pageDirty q
    · intro q i hi
      rw [page_setPage]
      by_cases hq : q = 0
      · rw [hq, Function.update_self, page_catalogNodeInit _ hi]
        exact (h.zero _ (by rw [hempty]; exact Nat.zero_le _)).symm
      · rw [Function.update_of_ne hq, hview.page]
        exact hpage q i hi
  · rw [if_neg hempty] at hopen
    refine ⟨s, hopen, hsound, hview.disk, hnum, ?_, ?_⟩
    · exact fun q => congrFun hview.pageDirty q
    · intro q i hi
      rw [hview.page]
      exact hpage q i hi

end MiniDB
