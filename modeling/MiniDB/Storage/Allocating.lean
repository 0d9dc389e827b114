import MiniDB.Storage.Paging

/-!
# New page numbers

A new page gets the number that `num_pages` has: `pager_allocate_page` hands it out, and the splits
fetch the page with it.  `pager_open` counts the whole pages of the file; `pager_get_page` reads the
part of a page that the file may end with as well, and raises the count above every page it fetches.

* `PagerCall`: the calls, and the number that each obtains.
* `FreshNumber`, `HandsOutFresh`: what new numbers are promised to be, and the runs that keep it.
* `Covered`: the count is beyond the file; from then on every new number is fresh.
* `handsOutFresh_iff`: **the runs from `pager_open` that hand out fresh numbers only**.
-/

namespace MiniDB

open Pager

variable {s : Pager} {used : List ℕ} {calls : List PagerCall} {n k : ℕ}

/-! ## Calls -/

/-- The calls by which pages are obtained. -/
inductive PagerCall where
  /-- `pager_get_page(pager, page_number)` -/
  | getPage (pageNumber : ℕ)
  /-- `pager_allocate_page(pager)` -/
  | allocatePage
  /-- `pager_get_page(pager, pager->num_pages)`, as the splits call it -/
  | newPage

namespace PagerCall

/-- The call gets a page that is to be a new one. -/
def handsOut : PagerCall → Bool
  | getPage _ => false
  | allocatePage => true
  | newPage => true

/-- `pager_get_page` as a step: the number that was fetched, if any. -/
def fetch (s : Pager) (n : ℕ) : Option ℕ × Pager :=
  match pagerGetPage s n with
  | some s' => (some n, s')
  | none => (none, s)

/-- A call as a step: the number that it obtained, if any, and the state behind it. -/
def run (s : Pager) : PagerCall → Option ℕ × Pager
  | getPage n => fetch s n
  | allocatePage => (some (pagerAllocatePage s).1, (pagerAllocatePage s).2)
  | newPage => fetch s s.numPages

end PagerCall

/-- A number for a new page is none of those obtained before; no byte of the file lies in the page;
and the page that is fetched under it is all zeros. -/
structure FreshNumber (s : Pager) (used : List ℕ) (k : ℕ) : Prop where
  unused : k ∉ used
  outside : ∀ b < s.disk.size, b / pageSize ≠ k
  zeros : k < tablesMaxPages →
    ∃ s', pagerGetPage s k = some s' ∧ ∀ i < pageSize, s'.page k i = 0

/-- Every number that is handed out along the calls is fresh. -/
def HandsOutFresh : List PagerCall → Pager → List ℕ → Prop
  | [], _, _ => True
  | call :: calls, s, used => (call.handsOut = true → FreshNumber s used s.numPages) ∧
      HandsOutFresh calls (call.run s).2 ((call.run s).1.toList ++ used)

/-! ## The count of pages -/

/-- The pages that were obtained are counted. -/
structure Counted (s : Pager) (used : List ℕ) : Prop where
  length : s.fileLength = s.disk.size
  used : ∀ k ∈ used, k < s.numPages
  cached : ∀ k, (s.pages k).isSome → k < s.numPages

/-- The pages that are counted hold the whole file. -/
def Covered (s : Pager) : Prop := s.disk.size ≤ pageSize * s.numPages

/-- **What `pager_get_page` does to the count.** -/
theorem Counted.fetch (h : Counted s used) (n : ℕ) :
    Counted (PagerCall.fetch s n).2 ((PagerCall.fetch s n).1.toList ++ used) ∧
      (PagerCall.fetch s n).2.disk = s.disk ∧
      (PagerCall.fetch s n).2.numPages =
        if n < tablesMaxPages then max s.numPages (n + 1) else s.numPages := by
  unfold PagerCall.fetch
  rcases le_or_gt tablesMaxPages n with hmax | hmax
  · rw [pagerGetPage_none hmax, if_neg (not_lt.mpr hmax)]
    exact ⟨h, rfl, rfl⟩
  rw [if_pos hmax]
  cases hc : s.pages n with
  | some p =>
    have hn := h.cached n (by rw [hc]; rfl)
    rw [pagerGetPage_cached (by rw [hc]; rfl) hmax]
    refine ⟨⟨h.length, ?_, h.cached⟩, rfl, by show s.numPages = _; omega⟩
    intro k hk
    rcases List.mem_cons.mp hk with rfl | hk
    · exact hn
    · exact h.used k hk
  | none =>
    obtain ⟨s', hget, hview, hnum, -, hcached⟩ := pagerGetPage_uncached h.length hc hmax
    rw [hget]
    refine ⟨⟨?_, ?_, ?_⟩, hview.disk, hnum⟩
    · show s'.fileLength = s'.disk.size
      rw [hview.fileLength, hview.disk, h.length]
    · intro k hk
      show k < s'.numPages
      rcases List.mem_cons.mp hk with rfl | hk
      · omega
      · have := h.used k hk
        omega
    · intro k hk
      show k < s'.numPages
      rcases hcached k hk with rfl | hk
      · omega
      · have := h.cached k hk
        omega

/-- A new number is counted from now on. -/
theorem Counted.allocate (h : Counted s used) :
    Counted (pagerAllocatePage s).2 ((pagerAllocatePage s).1 :: used) where
  length := h.length
  used k hk := by
    show k < s.numPages + 1
    rcases List.mem_cons.mp hk with rfl | hk
    · exact Nat.lt_succ_self _
    · exact Nat.lt_succ_of_lt (h.used k hk)
  cached k hk := Nat.lt_succ_of_lt (h.cached k hk)

/-- Every call keeps the count right, and never lowers it. -/
theorem Counted.run (h : Counted s used) (call : PagerCall) :
    Counted (call.run s).2 ((call.run s).1.toList ++ used) ∧ (call.run s).2.disk = s.disk ∧
      s.numPages ≤ (call.run s).2.numPages := by
  have hfetch : ∀ n, Counted (PagerCall.fetch s n).2 ((PagerCall.fetch s n).1.toList ++ used) ∧
      (PagerCall.fetch s n).2.disk = s.disk ∧ s.numPages ≤ (PagerCall.fetch s n).2.numPages := by
    intro n
    obtain ⟨hcounted, hdisk, hnum⟩ := h.fetch n
    refine ⟨hcounted, hdisk, ?_⟩
    rw [hnum]
    split
    · exact le_max_left ..
    · exact le_rfl
  cases call with
  | getPage n => exact hfetch n
  | newPage => exact hfetch s.numPages
  | allocatePage => exact ⟨h.allocate, rfl, Nat.le_succ _⟩

/-- **Beyond the file every new number is fresh.** -/
theorem Counted.freshNumber (h : Counted s used) (hcov : Covered s) :
    FreshNumber s used s.numPages := by
  refine ⟨fun hmem => lt_irrefl _ (h.used _ hmem), ?_, ?_⟩
  · intro b hb hdiv
    have hle : pageSize * s.numPages ≤ b := hdiv ▸ Nat.mul_div_le b pageSize
    have hcov' : s.disk.size ≤ pageSize * s.numPages := hcov
    omega
  · intro hmax
    have hc : s.pages s.numPages = none := by
      rw [← Option.not_isSome_iff_eq_none]
      exact fun hsome => lt_irrefl _ (h.cached _ hsome)
    obtain ⟨s', hget, hview, -⟩ := pagerGetPage_uncached h.length hc hmax
    refine ⟨s', hget, ?_⟩
    intro i _
    rw [hview.page, page, hc, Option.getD_none, load, if_neg]
    rintro ⟨-, -, hlt⟩
    have hcov' : s.disk.size ≤ pageSize * s.numPages := hcov
    omega

/-- A new number that is not beyond the file is that of a page with bytes in it. -/
theorem not_freshNumber (hcov : ¬ Covered s) : ¬ FreshNumber s used s.numPages := by
  intro hfresh
  have hlt : pageSize * s.numPages < s.disk.size := not_le.mp hcov
  exact hfresh.outside _ hlt (Nat.mul_div_cancel_left _ (by decide))

/-- From then on all numbers that are handed out are fresh. -/
theorem Counted.handsOutFresh (h : Counted s used) (hcov : Covered s) (calls : List PagerCall) :
    HandsOutFresh calls s used := by
  induction calls generalizing s used with
  | nil => trivial
  | cons call calls ih =>
    obtain ⟨hcounted, hdisk, hnum⟩ := h.run call
    refine ⟨fun _ => h.freshNumber hcov, ih hcounted ?_⟩
    unfold Covered
    rw [hdisk]
    exact le_trans hcov (Nat.mul_le_mul_left _ hnum)

/-! ## Runs -/

/-- Before anything is handed out, the page that the file ends in is fetched, or one behind it. -/
def FetchesEnd (size : ℕ) (calls : List PagerCall) : Prop :=
  ∃ n, .getPage n ∈ calls.takeWhile (fun call => ! call.handsOut) ∧ n < tablesMaxPages ∧
    size ≤ pageSize * (n + 1)

theorem fetchesEnd_cons {size : ℕ} : FetchesEnd size (.getPage n :: calls) ↔
    (n < tablesMaxPages ∧ size ≤ pageSize * (n + 1)) ∨ FetchesEnd size calls := by
  unfold FetchesEnd
  rw [List.takeWhile_cons_of_pos rfl]
  constructor
  · rintro ⟨m, hm, hrest⟩
    rcases List.mem_cons.mp hm with heq | hm
    · cases heq
      exact Or.inl hrest
    · exact Or.inr ⟨m, hm, hrest⟩
  · rintro (hrest | ⟨m, hm, hrest⟩)
    · exact ⟨n, List.mem_cons_self, hrest⟩
    · exact ⟨m, List.mem_cons_of_mem _ hm, hrest⟩

/-- **The runs that hand out fresh numbers only**: the count covers the file, or nothing is handed
out, or the end of the file is fetched first. -/
theorem Counted.iff_fetchesEnd (h : Counted s used) (calls : List PagerCall) :
    HandsOutFresh calls s used ↔ Covered s ∨ (∀ call ∈ calls, call.handsOut = false) ∨
      FetchesEnd s.disk.size calls := by
  -- by induction on the calls; as long as the count does not cover the file, a call that hands out
  -- a number settles the matter
  induction calls generalizing s used with
  | nil => exact iff_of_true trivial (Or.inr (Or.inl fun _ hmem => absurd hmem List.not_mem_nil))
  | cons call calls ih =>
    by_cases hcov : Covered s
    · exact iff_of_true (h.handsOutFresh hcov _) (Or.inl hcov)
    have hends : ∀ call : PagerCall, call.handsOut = true →
        (HandsOutFresh (call :: calls) s used ↔ Covered s ∨
          (∀ c ∈ call :: calls, c.handsOut = false) ∨ FetchesEnd s.disk.size (call :: calls)) := by
      intro call hout
      refine iff_of_false (fun hall => not_freshNumber hcov (hall.1 hout)) ?_
      rintro (hcov' | hnone | ⟨n, hn, -⟩)
      · exact hcov hcov'
      · rw [hnone call List.mem_cons_self] at hout
        cases hout
      · rw [List.takeWhile_cons_of_neg (by rw [hout]; decide)] at hn
        exact absurd hn List.not_mem_nil
    cases call with
    | allocatePage => exact hends _ rfl
    | newPage => exact hends _ rfl
    | getPage n =>
      obtain ⟨hcounted, hdisk, hnum⟩ := h.fetch n
      have hcov' : Covered (PagerCall.fetch s n).2 ↔
          n < tablesMaxPages ∧ s.disk.size ≤ pageSize * (n + 1) := by
        unfold Covered at hcov ⊢
        rw [hdisk, hnum]
        split
        · next hmax =>
          rw [and_iff_right hmax]
          simp only [pageSize] at hcov ⊢
          omega
        · next hmax => exact iff_of_false hcov fun hlt => hmax hlt.1
      have hrest := ih hcounted
      rw [hcov', hdisk] at hrest
      have hstep : HandsOutFresh (.getPage n :: calls) s used ↔
          HandsOutFresh calls (PagerCall.fetch s n).2
            ((PagerCall.fetch s n).1.toList ++ used) :=
        and_iff_right fun hout : PagerCall.handsOut (.getPage n) = true => by cases hout
      rw [hstep, hrest, fetchesEnd_cons, or_iff_right hcov, List.forall_mem_cons,
        and_iff_right (show PagerCall.handsOut (.getPage n) = false from rfl)]
      exact or_left_comm

/-- **The pager hands out fresh page numbers only** just when the file ends with a whole page, or
nothing is handed out, or the page that the file ends in, or one behind it, is fetched before. -/
theorem handsOutFresh_iff (disk : Disk) (hsize : disk.size ≤ tablesMaxPages * pageSize)
    (calls : List PagerCall) : HandsOutFresh calls (pagerOpen disk) [] ↔
      pageSize ∣ disk.size ∨ (∀ call ∈ calls, call.handsOut = false) ∨
        FetchesEnd disk.size calls := by
  have hlen : disk.size % 2 ^ 32 = disk.size := by
    refine Nat.mod_eq_of_lt (lt_of_le_of_lt hsize ?_)
    decide
  have hcounted : Counted (pagerOpen disk) [] :=
    ⟨hlen, fun _ hmem => absurd hmem List.not_mem_nil,
      fun _ hsome => absurd hsome (by simp [pagerOpen])⟩
  have hcov : Covered (pagerOpen disk) ↔ pageSize ∣ disk.size := by
    constructor
    · intro hle
      exact ⟨_, le_antisymm hle (Nat.mul_div_le ..)⟩
    · intro hdvd
      exact (Nat.mul_div_cancel' hdvd).ge
  rw [hcounted.iff_fetchesEnd, hcov]
  exact Iff.rfl

/-- A file of one page and one byte, the second page of which is fetched first. -/
theorem handsOutFresh_iff_fetched :
    HandsOutFresh [.getPage 1, .allocatePage, .newPage]
      (pagerOpen ⟨fun _ => 1, pageSize + 1⟩) [] := by
  refine (handsOutFresh_iff ⟨fun _ => 1, pageSize + 1⟩ (by decide) _).mpr (Or.inr (Or.inr ?_))
  exact fetchesEnd_cons.mpr (Or.inl ⟨by decide, by decide⟩)

/-- A file of one page and one byte: the number that is handed out first is that of the page the
byte lies in. -/
theorem not_handsOutFresh_part :
    ¬ HandsOutFresh [.allocatePage] (pagerOpen ⟨fun _ => 1, pageSize + 1⟩) [] := by
  intro hall
  exact (hall.1 rfl).outside pageSize (by decide) (by decide)

end MiniDB
