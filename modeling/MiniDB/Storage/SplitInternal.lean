import MiniDB.Storage.Paging
import MiniDB.Storage.Stored

/-!
# Splitting an internal page

What `split_internal_node` makes of the keys and children it was given, as lists: both halves, the
key between them, and the parent pointers of the children that moved.

* `setParentPointers_eq`: the loop over the moved children.
* `splitInternalHalves_eq`: an internal page that is not the root.
* `splitInternalRoot_eq`: the root.
-/

namespace MiniDB

open Pager

variable {s : Pager}

theorem internalNodeMaxKeys_eq : internalNodeMaxKeys = 340 := rfl

/-- An internal page that was filled from a list of cells. -/
theorem internalPage_filled {seps : List Int64} {children : List ℕ} {cells : List (Int64 × ℕ)}
    {q base : Page} {link : ℕ} (hkeys : cells.map Prod.fst = seps)
    (hchildren : cells.map Prod.snd ++ [link] = children) (hfits : ∀ c ∈ children, Fits c)
    (hbody : SameBody q (writeInternalCells 0 cells base)) (htype : (header q).type = nodeInternal)
    (hcells : (header q).cells = seps.length) (hlink : (header q).link = link) :
    InternalPage q seps children where
  type := htype
  keys := by
    rw [← hkeys]
    exact internalKeys_write hbody (by rw [numCells_eq, hcells, ← hkeys, List.length_map])
  children := by
    have hcell : ∀ c ∈ cells, Fits c.2 := fun c hc =>
      hfits _ (hchildren ▸ List.mem_append_left _ (List.mem_map_of_mem hc))
    rw [internalChildren_write hcell hbody
      (by rw [numCells_eq, hcells, ← hkeys, List.length_map]), rightChild_eq, hlink, hchildren]

/-- The cells of a half: as many children as keys, and one more child for the header. -/
theorem zip_half {keys : List Int64} {children : List ℕ} (h : children.length = keys.length + 1) :
    (keys.zip children).map Prod.fst = keys ∧
      (keys.zip children).map Prod.snd ++ [children.getD keys.length 0] = children := by
  constructor
  · exact List.map_fst_zip (by omega)
  · obtain ⟨init, last, rfl⟩ : ∃ init last, children = init ++ [last] :=
      ⟨children.dropLast, children.getLast (List.ne_nil_of_length_eq_add_one h),
        (List.dropLast_append_getLast _).symm⟩
    have hinit : init.length = keys.length := by simpa using h
    have hzip : keys.zip (init ++ [last]) = keys.zip init := by
      have happend : (keys ++ []).zip (init ++ [last]) = keys.zip init ++ [].zip [last] :=
        List.zip_append hinit.symm
      simpa using happend
    rw [hzip, List.map_snd_zip hinit.le, ← hinit]
    simp

/-! ## Parent pointers -/

/-- The loop over the moved children sets their parent pointers, and nothing else. -/
theorem setParentPointers_eq (cs : List (ℕ × ℕ)) (hs : s.Sound) (hlt : ∀ c ∈ cs, c.1 < s.numPages)
    (hnd : (cs.map Prod.fst).Nodup) :
    ∃ s', setParentPointers cs s = (true, s') ∧ s'.numPages = s.numPages ∧
      s'.pageDirty = s.pageDirty ∧
      Evolves s s' {p | p ∈ cs.map Prod.fst} {p | p ∈ cs.map Prod.fst} ∧
      ∀ c ∈ cs, s'.page c.1 = setParentPointer (s.page c.1) c.2 := by
  induction cs generalizing s with
  | nil => exact ⟨s, rfl, rfl, rfl, Evolves.refl hs, by simp⟩
  | cons c cs ih =>
    obtain ⟨hc, hnd'⟩ := List.nodup_cons.mp hnd
    obtain ⟨s₁, hget, hfetch⟩ := pagerGetPage_of_lt hs (hlt c List.mem_cons_self)
    have hc₁ : c.1 < s₁.numPages := by
      rw [hfetch.numPages]
      exact hlt c List.mem_cons_self
    obtain ⟨s₂, hrun, hnum, hdirty, hev, hset⟩ :=
      ih (s := s₁.setPage c.1 (setParentPointer (s₁.page c.1) c.2)) (hfetch.sound.setPage hc₁)
        (fun d hd => by
          rw [numPages_setPage, hfetch.numPages]
          exact hlt d (List.mem_cons_of_mem _ hd)) hnd'
    have hstep : Evolves s (s₁.setPage c.1 (setParentPointer (s₁.page c.1) c.2))
        {p | p ∈ (c :: cs).map Prod.fst} {p | p ∈ (c :: cs).map Prod.fst} :=
      hfetch.evolves.setPage hc₁ List.mem_cons_self List.mem_cons_self
    refine ⟨s₂, ?_, hnum.trans hfetch.numPages, hdirty.trans hfetch.pageDirty,
      hstep.trans (hev.mono (fun p hp => List.mem_cons_of_mem _ hp)
        fun p hp => List.mem_cons_of_mem _ hp), ?_⟩
    · rw [setParentPointers]
      simp only [hget, hrun]
    · intro d hd
      rcases List.mem_cons.mp hd with rfl | hd
      · rw [hev.page _ hc, page_setPage, Function.update_self, hfetch.page]
      · have hne : d.1 ≠ c.1 := fun heq => hc (heq ▸ List.mem_map_of_mem hd)
        rw [hset d hd, page_setPage, Function.update_of_ne hne, hfetch.page]

/-! ## The halves of a page that is not the root -/

/-- The lists of a full page with one more key, cut at the key in the middle. -/
structure Cut (keys : List Int64) (children : List ℕ) (lk : List Int64) (p : Int64)
    (rk : List Int64) (lc rc : List ℕ) : Prop where
  keys : keys = lk ++ p :: rk
  children : children = lc ++ rc
  left : lk.length = internalNodeMaxKeys / 2
  right : rk.length = internalNodeMaxKeys - internalNodeMaxKeys / 2
  leftChildren : lc.length = lk.length + 1
  rightChildren : rc.length = rk.length + 1

section Cut

variable {keys : List Int64} {children : List ℕ} {lk : List Int64} {p : Int64} {rk : List Int64}
  {lc rc : List ℕ}

/-- The lists that the code takes out of its buffers. -/
theorem Cut.lists (h : Cut keys children lk p rk lc rc) :
    keys.take (internalNodeMaxKeys / 2) = lk ∧ keys.drop (internalNodeMaxKeys / 2 + 1) = rk ∧
      keys.getD (internalNodeMaxKeys / 2) 0 = p ∧
      children.drop (internalNodeMaxKeys / 2 + 1) = rc := by
  obtain ⟨rfl, rfl, hl, -, hlc, -⟩ := h
  refine ⟨?_, ?_, ?_, ?_⟩
  · rw [← hl, List.take_left]
  · rw [← hl, List.drop_append, List.drop_of_length_le (by omega)]
    simp
  · rw [← hl]
    simp
  · rw [← hl, ← hlc, List.drop_left]

/-- The cells of the left half. -/
theorem Cut.left_cells (h : Cut keys children lk p rk lc rc) :
    ((keys.take (internalNodeMaxKeys / 2)).zip
        (children.take (internalNodeMaxKeys / 2))).map Prod.fst = lk ∧
      ((keys.take (internalNodeMaxKeys / 2)).zip
        (children.take (internalNodeMaxKeys / 2))).map Prod.snd ++
          [children.getD (internalNodeMaxKeys / 2) 0] = lc := by
  obtain ⟨hk, -⟩ := h.lists
  obtain ⟨-, rfl, hl, -, hlc, -⟩ := h
  obtain ⟨init, last, rfl⟩ : ∃ init last, lc = init ++ [last] :=
    ⟨lc.dropLast, lc.getLast (List.ne_nil_of_length_eq_add_one hlc),
      (List.dropLast_append_getLast _).symm⟩
  have hinit : init.length = lk.length := by simpa using hlc
  rw [hk, ← hl, ← hinit, List.append_assoc, List.take_left]
  refine ⟨List.map_fst_zip hinit.ge, ?_⟩
  rw [List.map_snd_zip hinit.le]
  simp

/-- The cells of the right half. -/
theorem Cut.right_cells (h : Cut keys children lk p rk lc rc) :
    ((keys.drop (internalNodeMaxKeys / 2 + 1)).zip
        (children.drop (internalNodeMaxKeys / 2 + 1))).map Prod.fst = rk ∧
      ((keys.drop (internalNodeMaxKeys / 2 + 1)).zip
        (children.drop (internalNodeMaxKeys / 2 + 1))).map Prod.snd ++
          [children.getD (internalNodeMaxKeys + 1) 0] = rc := by
  obtain ⟨-, hk, -, hc⟩ := h.lists
  obtain ⟨-, rfl, hl, hr, hlc, hrc⟩ := h
  have hlast : (lc ++ rc).getD (internalNodeMaxKeys + 1) 0 = rc.getD rk.length 0 := by
    have hidx : internalNodeMaxKeys + 1 = lc.length + rk.length := by
      rw [hlc, hl, hr, internalNodeMaxKeys_eq]
    rw [hidx, List.getD_eq_getElem?_getD, List.getElem?_append_right (Nat.le_add_right ..),
      Nat.add_sub_cancel_left, List.getD_eq_getElem?_getD]
  rw [hk, hc, hlast]
  exact zip_half hrc

end Cut

/-- The page of a half, before its number of cells and its parent are set. -/
def halfPage (base : Page) (cells : List (Int64 × ℕ)) (link : ℕ) : Page :=
  setRightChild (writeInternalCells 0 cells (internalNodeInit base 0)) link

theorem header_halfPage {base : Page} {cells : List (Int64 × ℕ)} {link : ℕ} (hl : Fits link) :
    header (halfPage base cells link) = ⟨nodeInternal, 0, (header base).parent, 0, link⟩ := by
  rw [halfPage, header_setRightChild _ hl, header_writeInternalCells, header_internalNodeInit]

theorem sameBody_halfPage (base : Page) (cells : List (Int64 × ℕ)) (link : ℕ) :
    SameBody (halfPage base cells link) (writeInternalCells 0 cells (internalNodeInit base 0)) :=
  sameBody_setRightChild _ _

/-- A half with its number of cells and its parent. -/
theorem internalPage_half (base : Page) {seps : List Int64} {children : List ℕ}
    {cells : List (Int64 × ℕ)} {q : Page} {link n parent : ℕ} (hkeys : cells.map Prod.fst = seps)
    (hchildren : cells.map Prod.snd ++ [link] = children) (hfits : ∀ c ∈ children, Fits c)
    (hbody : SameBody q (halfPage base cells link)) (hn : n = seps.length)
    (hq : header q = { header (halfPage base cells link) with cells := n, parent := parent }) :
    InternalPage q seps children ∧ ChildOf q parent := by
  have hl : Fits link := hfits _ (hchildren ▸ List.mem_append_right _ (List.mem_singleton_self _))
  rw [header_halfPage hl] at hq
  refine ⟨internalPage_filled hkeys hchildren hfits
    (hbody.trans (sameBody_halfPage base cells link))
    ?_ ?_ ?_, ?_, ?_⟩
  · rw [hq]
  · rw [hq, hn]
  · rw [hq]
  · rw [isRoot_eq, hq]
  · rw [parentPointer_eq, hq]

variable {old : ℕ} {keys : List Int64} {children : List ℕ} {lk : List Int64} {p : Int64}
  {rk : List Int64} {lc rc : List ℕ}

/-- **The old page keeps the left half and a new page takes the right one**, with the children that
moved there. -/
theorem splitInternalHalves_eq (hcut : Cut keys children lk p rk lc rc) (hs : s.Sound)
    (hroom : s.numPages < tablesMaxPages) (hold : old < s.numPages)
    (hchild : ∀ c ∈ children, c < s.numPages) (hnd : rc.Nodup) (hold' : old ∉ rc)
    (hparent : parentPointer (s.page old) < s.numPages) :
    ∃ s', splitInternalHalves s old keys children = (some s.numPages, s') ∧
      s'.numPages = s.numPages + 1 ∧
      Evolves s s' {q | q = old ∨ q = s.numPages ∨ q ∈ rc} {q | q ∈ rc} ∧
      (s'.pageDirty old = true ∧ s'.pageDirty s.numPages = true) ∧
      (InternalPage (s'.page old) lk lc ∧
        ChildOf (s'.page old) (parentPointer (s.page old))) ∧
      (InternalPage (s'.page s.numPages) rk rc ∧
        ChildOf (s'.page s.numPages) (parentPointer (s.page old))) ∧
      ∀ c ∈ rc, s'.page c = setParentPointer (s.page c) s.numPages := by
  obtain ⟨hlk, hrk, hp, hrc⟩ := hcut.lists
  obtain ⟨hlfst, hlsnd⟩ := hcut.left_cells
  obtain ⟨hrfst, hrsnd⟩ := hcut.right_cells
  have hrclt : ∀ c ∈ rc, c < s.numPages := fun c hc =>
    hchild c (hcut.children ▸ List.mem_append_right _ hc)
  have hfits : ∀ c ∈ children, Fits c := fun c hc =>
    lt_trans ((hchild c hc).trans hroom) (by decide)
  -- the new page
  have hs₀ := hs.setPage (p := (s.page old).zero internalNodeHeaderSize internalNodeSpaceForCells)
    hold
  obtain ⟨s₁, hget₁, hview₁, hnum₁, hs₁⟩ := pagerGetPage_fresh hs₀ hroom
  rw [numPages_setPage] at hget₁ hnum₁
  -- both halves without their number of cells
  obtain ⟨L, hL⟩ : ∃ L, L = halfPage (s₁.page old) ((keys.take (internalNodeMaxKeys / 2)).zip
    (children.take (internalNodeMaxKeys / 2))) (children.getD (internalNodeMaxKeys / 2) 0) :=
    ⟨_, rfl⟩
  obtain ⟨R, hR⟩ : ∃ R, R = halfPage (s₁.page s.numPages)
    ((keys.drop (internalNodeMaxKeys / 2 + 1)).zip (children.drop (internalNodeMaxKeys / 2 + 1)))
      (children.getD (internalNodeMaxKeys + 1) 0) := ⟨_, rfl⟩
  have hold₁ : old < s₁.numPages := by omega
  have hnew₁ : s.numPages < s₁.numPages := by omega
  have hs₂ := (hs₁.setPage (p := L) hold₁).setPage (p := R) hnew₁
  obtain ⟨s₃, hset, hnum₃, -, hev₃, hpage₃⟩ := setParentPointers_eq
    (rc.map fun c => (c, s.numPages)) hs₂ (by
      intro c hc
      obtain ⟨d, hd, rfl⟩ := List.mem_map.mp hc
      have := hrclt d hd
      simp only [numPages_setPage, hnum₁]
      omega) (by simpa [Function.comp_def] using hnd)
  have hmapfst : (rc.map fun c => (c, s.numPages)).map Prod.fst = rc := by
    simp [Function.comp_def]
  rw [hmapfst] at hev₃
  have hnewrc : s.numPages ∉ rc := fun h => lt_irrefl _ (hrclt _ h)
  have hne : old ≠ s.numPages := hold.ne
  have hold₃ : s₃.page old = L := by
    rw [hev₃.page old hold', page_setPage, Function.update_of_ne hne, page_setPage,
      Function.update_self]
  have hnew₃ : s₃.page s.numPages = R := by
    rw [hev₃.page _ hnewrc, page_setPage, Function.update_self]
  have hbase : (header (s₁.page old)).parent = parentPointer (s.page old) := by
    rw [hview₁.page, page_setPage, Function.update_self, header_zero (by decide)]
    rfl
  have hcfits : ∀ i, Fits (children.getD i 0) := fun i => by
    rw [List.getD_eq_getElem?_getD]
    cases hi : children[i]? with
    | none => decide
    | some c => exact hfits c (List.mem_of_getElem? hi)
  have hparentL : parentPointer L = parentPointer (s.page old) := by
    rw [parentPointer_eq, hL, header_halfPage (hcfits _), hbase]
  have hpfits : Fits (parentPointer (s.page old)) := Mem.readNat_lt ..
  have hnum₃' : s₃.numPages = s.numPages + 1 := by rw [hnum₃]; simp only [numPages_setPage, hnum₁]
  -- the parent pointers and the numbers of cells of the halves
  obtain ⟨s₇, hs₇⟩ : ∃ s₇, s₇ = ((((s₃.setPage s.numPages
      (setParentPointer R (parentPointer (s.page old)))).setPage old
        (setParentPointer L (parentPointer (s.page old)))).setPage old
          (setNumCells (setParentPointer L (parentPointer (s.page old)))
            (internalNodeMaxKeys / 2))).setPage s.numPages
              (setNumCells (setParentPointer R (parentPointer (s.page old)))
                (internalNodeMaxKeys - internalNodeMaxKeys / 2))) := ⟨_, rfl⟩
  have hold₃' : old < s₃.numPages := by omega
  have hnew₃' : s.numPages < s₃.numPages := by omega
  have hsound₇ : s₇.Sound := by
    rw [hs₇]
    exact (((hev₃.sound.setPage hnew₃').setPage hold₃').setPage hold₃').setPage hnew₃'
  have hnum₇ : s₇.numPages = s.numPages + 1 := by
    rw [hs₇]
    exact hnum₃'
  obtain ⟨s₈, hget₈, hfetch₈⟩ := pagerGetPage_of_lt hsound₇
    (n := parentPointer (s.page old)) (by omega)
  refine ⟨pagerMarkDirty (pagerMarkDirty s₈ old) s.numPages, ?_, ?_, ?_, ?_, ?_, ?_, ?_⟩
  · rw [halfPage] at hL hR
    simp only [splitInternalHalves, numPages_setPage, hget₁]
    rw [← hL, ← hR, hrc, hset]
    simp only [hold₃, hnew₃, hparentL, page_setPage, Function.update_self,
      Function.update_of_ne hne, Function.update_of_ne hne.symm, ← hs₇, hget₈]
  · rw [numPages_pagerMarkDirty, numPages_pagerMarkDirty, hfetch₈.numPages, hnum₇]
  · have hS : ∀ {q}, q = old ∨ q = s.numPages ∨ q ∈ rc →
        q ∈ {q | q = old ∨ q = s.numPages ∨ q ∈ rc} := fun h => h
    have hev₂ := ((((Evolves.refl hs).setPage (p := (s.page old).zero internalNodeHeaderSize
      internalNodeSpaceForCells) hold (hS (Or.inl rfl)) (hS (Or.inl rfl))).trans
        (hview₁.evolves (by rw [hnum₁]; exact Nat.le_succ _) hs₁)).setPage (p := L) hold₁
          (hS (Or.inl rfl)) (hS (Or.inl rfl))).setPage (p := R) hnew₁
            (hS (Or.inr (Or.inl rfl))) (hS (Or.inr (Or.inl rfl)))
    have hev := hev₂.trans (hev₃.mono (fun q hq => hS (Or.inr (Or.inr hq)))
      fun q hq => hS (Or.inr (Or.inr hq)))
    have hev₇ : Evolves s s₇ {q | q = old ∨ q = s.numPages ∨ q ∈ rc}
        {q | q = old ∨ q = s.numPages ∨ q ∈ rc} := by
      rw [hs₇]
      exact (((hev.setPage hnew₃' (hS (Or.inr (Or.inl rfl))) (hS (Or.inr (Or.inl rfl)))).setPage
        hold₃' (hS (Or.inl rfl)) (hS (Or.inl rfl))).setPage hold₃' (hS (Or.inl rfl))
          (hS (Or.inl rfl))).setPage hnew₃' (hS (Or.inr (Or.inl rfl))) (hS (Or.inr (Or.inl rfl)))
    refine (hev₇.fetched hfetch₈).markDirty.markDirty.mono (fun q hq => hq) ?_
    rintro q ⟨⟨hq | hq | hq, hne₁⟩, hne₂⟩
    · exact absurd hq hne₁
    · exact absurd hq hne₂
    · exact hq
  · simp [Function.update_of_ne hne]
  · have hpage : (pagerMarkDirty (pagerMarkDirty s₈ old) s.numPages).page old =
        setNumCells (setParentPointer L (parentPointer (s.page old)))
          (internalNodeMaxKeys / 2) := by
      simp only [page_pagerMarkDirty, hfetch₈.page, hs₇, page_setPage, Function.update_self,
        Function.update_of_ne hne]
    rw [hpage]
    refine internalPage_half (s₁.page old) hlfst hlsnd (fun c hc => hfits c (hcut.children ▸
      List.mem_append_left _ hc)) ?_ hcut.left.symm ?_
    · rw [← hL]
      exact (sameBody_setNumCells _ _).trans (sameBody_setParentPointer _ _)
    · rw [← hL, header_setNumCells _ (by decide), header_setParentPointer _ hpfits]
  · have hpage : (pagerMarkDirty (pagerMarkDirty s₈ old) s.numPages).page s.numPages =
        setNumCells (setParentPointer R (parentPointer (s.page old)))
          (internalNodeMaxKeys - internalNodeMaxKeys / 2) := by
      simp only [page_pagerMarkDirty, hfetch₈.page, hs₇, page_setPage, Function.update_self]
    rw [hpage]
    refine internalPage_half (s₁.page s.numPages) hrfst hrsnd (fun c hc => hfits c (hcut.children ▸
      List.mem_append_right _ hc)) ?_ hcut.right.symm ?_
    · rw [← hR]
      exact (sameBody_setNumCells _ _).trans (sameBody_setParentPointer _ _)
    · rw [← hR, header_setNumCells _ (by decide), header_setParentPointer _ hpfits]
  · intro c hc
    have hc₁ : c ≠ old := fun h => hold' (h ▸ hc)
    have hc₂ : c ≠ s.numPages := (hrclt c hc).ne
    have hset₃ := hpage₃ (c, s.numPages) (List.mem_map_of_mem hc)
    simp only [page_setPage, Function.update_of_ne hc₁, Function.update_of_ne hc₂, hview₁.page]
      at hset₃
    simp only [page_pagerMarkDirty, hfetch₈.page, hs₇, page_setPage, Function.update_of_ne hc₁,
      Function.update_of_ne hc₂, hset₃]

/-! ## The root -/

/-- The children up to the middle go to the left half and the others to the right one. -/
theorem Cut.parents (hcut : Cut keys children lk p rk lc rc) (left right : ℕ) :
    (children.zipIdx.map fun c =>
      (c.1, if c.2 ≤ internalNodeMaxKeys / 2 then left else right)) =
      lc.map (fun c => (c, left)) ++ rc.map fun c => (c, right) := by
  obtain ⟨-, rfl, hl, -, hlc, -⟩ := hcut
  rw [List.zipIdx_append, List.map_append, Nat.zero_add]
  congr 1
  · apply List.ext_getElem (by simp)
    intro i h1 h2
    have hi : i ≤ internalNodeMaxKeys / 2 := by
      simp only [List.length_map, List.length_zipIdx] at h1
      omega
    simp [hi]
  · apply List.ext_getElem (by simp)
    intro i h1 h2
    have hi : ¬ lc.length + i ≤ internalNodeMaxKeys / 2 := by omega
    simp [hi]

/-- A root page with one key. -/
theorem internalPage_single (parent : ℕ) {q base : Page} {left right : ℕ} (hl : Fits left)
    (hr : Fits right)
    (hbody : SameBody q (setInternalNodeValue (setInternalNodeKey base 0 p) 0 left))
    (hheader : header q = ⟨nodeInternal, 1, parent, 1, right⟩) :
    InternalPage q [p] [left, right] ∧ isRoot q = 1 := by
  have hcells : setInternalNodeValue (setInternalNodeKey base 0 p) 0 left =
      writeInternalCells 0 [(p, left)] base := rfl
  rw [hcells] at hbody
  refine ⟨internalPage_filled rfl rfl (fun c hc => ?_) hbody ?_ ?_ ?_, ?_⟩
  · rcases List.mem_cons.mp hc with rfl | hc
    · exact hl
    · exact List.mem_singleton.mp hc ▸ hr
  · rw [hheader]
  · rw [hheader]
    rfl
  · rw [hheader]
  · rw [isRoot_eq, hheader]

/-- The page of the new root. -/
theorem internalPage_newRoot {base : Page} {left right : ℕ} (hl : Fits left) (hr : Fits right) :
    InternalPage (setRightChild (setNumCells (setInternalNodeValue (setInternalNodeKey
        (internalNodeInit base 1) 0 p) 0 left) 1) right) [p] [left, right] ∧
      isRoot (setRightChild (setNumCells (setInternalNodeValue (setInternalNodeKey
        (internalNodeInit base 1) 0 p) 0 left) 1) right) = 1 := by
  have hcells : setInternalNodeValue (setInternalNodeKey (internalNodeInit base 1) 0 p) 0 left =
      writeInternalCells 0 [(p, left)] (internalNodeInit base 1) := rfl
  refine internalPage_single (header base).parent hl hr
    ((sameBody_setRightChild _ _).trans (sameBody_setNumCells _ _)) ?_
  rw [header_setRightChild _ hr, header_setNumCells _ (by decide), hcells,
    header_writeInternalCells, header_internalNodeInit]

/-- **Both halves of the root take new pages**, and the old page becomes their parent. -/
theorem splitInternalRoot_eq (hcut : Cut keys children lk p rk lc rc) (hs : s.Sound)
    (hroom : s.numPages + 2 ≤ tablesMaxPages) (hold : old < s.numPages)
    (hchild : ∀ c ∈ children, c < s.numPages) (hnd : children.Nodup) (hold' : old ∉ children) :
    ∃ s', splitInternalRoot s old keys children = (.commandSuccess, s') ∧
      s'.numPages = s.numPages + 2 ∧
      Evolves s s' {q | q = old ∨ s.numPages ≤ q ∨ q ∈ children} {q | q ∈ children} ∧
      (InternalPage (s'.page old) [p] [s.numPages, s.numPages + 1] ∧ isRoot (s'.page old) = 1) ∧
      (InternalPage (s'.page s.numPages) lk lc ∧ ChildOf (s'.page s.numPages) old) ∧
      (InternalPage (s'.page (s.numPages + 1)) rk rc ∧
        ChildOf (s'.page (s.numPages + 1)) old) ∧
      (∀ c ∈ lc, s'.page c = setParentPointer (s.page c) s.numPages) ∧
      ∀ c ∈ rc, s'.page c = setParentPointer (s.page c) (s.numPages + 1) := by
  obtain ⟨hlk, hrk, hp, hrc⟩ := hcut.lists
  obtain ⟨hlfst, hlsnd⟩ := hcut.left_cells
  obtain ⟨hrfst, hrsnd⟩ := hcut.right_cells
  have hfits : ∀ c < s.numPages + 2, Fits c := fun c hc =>
    lt_of_lt_of_le (lt_of_lt_of_le hc hroom) (by decide)
  -- the new pages
  obtain ⟨s₁, hget₁, hview₁, hnum₁, hs₁⟩ := pagerGetPage_fresh hs (by omega)
  obtain ⟨s₂, hget₂, hview₂, hnum₂, hs₂⟩ := pagerGetPage_fresh hs₁ (by omega)
  rw [hnum₁] at hget₂ hnum₂
  obtain ⟨L, hL⟩ : ∃ L, L = setParentPointer (setNumCells (halfPage (s₂.page s.numPages)
    ((keys.take (internalNodeMaxKeys / 2)).zip (children.take (internalNodeMaxKeys / 2)))
      (children.getD (internalNodeMaxKeys / 2) 0)) (internalNodeMaxKeys / 2)) old := ⟨_, rfl⟩
  obtain ⟨R, hR⟩ : ∃ R, R = setParentPointer (setNumCells (halfPage (s₂.page (s.numPages + 1))
    ((keys.drop (internalNodeMaxKeys / 2 + 1)).zip (children.drop (internalNodeMaxKeys / 2 + 1)))
      (children.getD (internalNodeMaxKeys + 1) 0))
        (internalNodeMaxKeys - internalNodeMaxKeys / 2)) old := ⟨_, rfl⟩
  have hleft₂ : s.numPages < s₂.numPages := by omega
  have hright₂ : s.numPages + 1 < s₂.numPages := by omega
  have hs₂' := (hs₂.setPage (p := L) hleft₂).setPage (p := R) hright₂
  have hpairs := hcut.parents s.numPages (s.numPages + 1)
  have hmapfst : (lc.map (fun c => (c, s.numPages)) ++
      rc.map fun c => (c, s.numPages + 1)).map Prod.fst = children := by
    simp [Function.comp_def, hcut.children]
  obtain ⟨s₃, hset, hnum₃, -, hev₃, hpage₃⟩ := setParentPointers_eq _
    hs₂' (by
      intro c hc
      have hc' := hchild c.1 (hmapfst ▸ List.mem_map_of_mem hc)
      simp only [numPages_setPage, hnum₂]
      omega) (by rw [hmapfst]; exact hnd)
  rw [hmapfst] at hev₃
  simp only [numPages_setPage, hnum₂] at hnum₃
  have hold₃ : old < s₃.numPages := by omega
  have hnewch : ∀ q, s.numPages ≤ q → q ∉ children := fun q hq h => by
    have := hchild q h
    omega
  have hne₁ : s.numPages ≠ s.numPages + 1 := by omega
  refine ⟨pagerMarkDirty (pagerMarkDirty (pagerMarkDirty (s₃.setPage old (setRightChild (setNumCells
    (setInternalNodeValue (setInternalNodeKey (internalNodeInit ((s₃.page old).zero
      internalNodeHeaderSize internalNodeSpaceForCells) 1) 0 p) 0 s.numPages) 1)
        (s.numPages + 1))) s.numPages) (s.numPages + 1)) old, ?_, hnum₃, ?_, ?_, ?_, ?_, ?_, ?_⟩
  · rw [halfPage] at hL hR
    simp only [splitInternalRoot, hget₁, hnum₁, hget₂]
    rw [← hL, ← hR, hpairs, hset, hp]
  · have hS : ∀ {q}, q = old ∨ s.numPages ≤ q ∨ q ∈ children →
        q ∈ {q | q = old ∨ s.numPages ≤ q ∨ q ∈ children} := fun h => h
    have hSM : ∀ {q}, q = old ∨ q = s.numPages ∨ q = s.numPages + 1 ∨ q ∈ children →
        q ∈ {q | q = old ∨ q = s.numPages ∨ q = s.numPages + 1 ∨ q ∈ children} := fun h => h
    have hev₂ : Evolves s s₂ {q | q = old ∨ s.numPages ≤ q ∨ q ∈ children}
        {q | q = old ∨ q = s.numPages ∨ q = s.numPages + 1 ∨ q ∈ children} :=
      (hview₁.trans hview₂).evolves (by omega) hs₂
    have hev := ((((hev₂.setPage (p := L) hleft₂ (hS (Or.inr (Or.inl le_rfl)))
      (hSM (Or.inr (Or.inl rfl)))).setPage (p := R) hright₂
        (hS (Or.inr (Or.inl (Nat.le_succ _)))) (hSM (Or.inr (Or.inr (Or.inl rfl))))).trans
          (hev₃.mono (fun q hq => hS (Or.inr (Or.inr hq)))
            fun q hq => hSM (Or.inr (Or.inr (Or.inr hq))))).setPage (p := setRightChild (setNumCells
    (setInternalNodeValue (setInternalNodeKey (internalNodeInit ((s₃.page old).zero
      internalNodeHeaderSize internalNodeSpaceForCells) 1) 0 p) 0 s.numPages) 1)
        (s.numPages + 1)) hold₃ (hS (Or.inl rfl)) (hSM (Or.inl rfl)))
    refine hev.markDirty.markDirty.markDirty.mono (fun q hq => hq) ?_
    rintro q ⟨⟨⟨hq | hq | hq | hq, h₁⟩, h₂⟩, h₃⟩
    · exact absurd hq h₃
    · exact absurd hq h₁
    · exact absurd hq h₂
    · exact hq
  · simp only [page_pagerMarkDirty, page_setPage, Function.update_self]
    exact internalPage_newRoot (hfits _ (by omega)) (hfits _ (by omega))
  · have hpage : s₃.page s.numPages = L := by
      rw [hev₃.page _ (hnewch _ le_rfl), page_setPage, Function.update_of_ne hne₁, page_setPage,
        Function.update_self]
    simp only [page_pagerMarkDirty, page_setPage, Function.update_of_ne hold.ne', hpage]
    refine internalPage_half (s₂.page s.numPages) hlfst hlsnd (fun c hc => ?_) ?_
      hcut.left.symm ?_
    · exact hfits c ((hchild c (hcut.children ▸ List.mem_append_left _ hc)).trans (by omega))
    · rw [hL]
      exact (sameBody_setParentPointer _ _).trans (sameBody_setNumCells _ _)
    · rw [hL, header_setParentPointer _ (hfits _ (by omega)), header_setNumCells _ (by decide)]
  · have hpage : s₃.page (s.numPages + 1) = R := by
      rw [hev₃.page _ (hnewch _ (Nat.le_succ _)), page_setPage, Function.update_self]
    have hne : s.numPages + 1 ≠ old := by omega
    simp only [page_pagerMarkDirty, page_setPage, Function.update_of_ne hne, hpage]
    refine internalPage_half (s₂.page (s.numPages + 1)) hrfst hrsnd (fun c hc => ?_) ?_
      hcut.right.symm ?_
    · exact hfits c ((hchild c (hcut.children ▸ List.mem_append_right _ hc)).trans (by omega))
    · rw [hR]
      exact (sameBody_setParentPointer _ _).trans (sameBody_setNumCells _ _)
    · rw [hR, header_setParentPointer _ (hfits _ (by omega)), header_setNumCells _ (by decide)]
  · intro c hc
    have hc' : c ∈ children := hcut.children ▸ List.mem_append_left _ hc
    have hset₃ := hpage₃ (c, s.numPages) (List.mem_append_left _ (List.mem_map_of_mem hc))
    have h₁ : c ≠ old := fun h => hold' (h ▸ hc')
    have h₂ : c ≠ s.numPages := fun h => hnewch _ le_rfl (h ▸ hc')
    have h₃ : c ≠ s.numPages + 1 := fun h => hnewch (s.numPages + 1) (Nat.le_succ _) (h ▸ hc')
    simp only [page_setPage, Function.update_of_ne h₂, Function.update_of_ne h₃, hview₂.page,
      hview₁.page] at hset₃
    simp only [page_pagerMarkDirty, page_setPage, Function.update_of_ne h₁, hset₃]
  · intro c hc
    have hc' : c ∈ children := hcut.children ▸ List.mem_append_right _ hc
    have hset₃ := hpage₃ (c, s.numPages + 1) (List.mem_append_right _ (List.mem_map_of_mem hc))
    have h₁ : c ≠ old := fun h => hold' (h ▸ hc')
    have h₂ : c ≠ s.numPages := fun h => hnewch _ le_rfl (h ▸ hc')
    have h₃ : c ≠ s.numPages + 1 := fun h => hnewch (s.numPages + 1) (Nat.le_succ _) (h ▸ hc')
    simp only [page_setPage, Function.update_of_ne h₂, Function.update_of_ne h₃, hview₂.page,
      hview₁.page] at hset₃
    simp only [page_pagerMarkDirty, page_setPage, Function.update_of_ne h₁, hset₃]

end MiniDB
