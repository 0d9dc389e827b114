import MiniDB.Storage.InsertParent
import MiniDB.Pages.CellEdits
import MiniDB.Pages.SplitBuffers
import MiniDB.BPlusTree.Levels

/-!
# What a separator on its way up leaves alone

On whatever key `insertParent` is called, and whether or not it runs out of pages on the way, it
writes the pages from the parent up to the root and new ones.  Of every other page it changes the
parent pointer at most.

* `Touches`: a step that does no more than that.
* `Ancestry`: the pages from a parent up to the root; `Stored.exists_ancestry`: every node below the
  root of a stored tree has one.
* `splitInternalNodeChecked`, `insertParentChecked`: the way up with every index checked.
* `touches_insertParent`: **the way up ends, spares the other pages and never leaves its arrays**.
-/

namespace MiniDB

open BPlusTree Pager

/-- Two pages that agree but for the parent pointer. -/
structure SameButParent (p q : Page) : Prop extends SameNode p q where
  root : isRoot p = isRoot q

theorem SameButParent.refl (p : Page) : SameButParent p p := ⟨SameNode.refl p, rfl⟩

theorem SameButParent.trans {p q r : Page} (h : SameButParent p q) (h' : SameButParent q r) :
    SameButParent p r :=
  ⟨h.toSameNode.trans h'.toSameNode, h.root.trans h'.root⟩

theorem sameButParent_setParentPointer (p : Page) {n : ℕ} (hn : Fits n) :
    SameButParent (setParentPointer p n) p :=
  ⟨sameNode_setParentPointer p hn, by rw [isRoot_eq, header_setParentPointer p hn]; rfl⟩

/-- Of the pages of `s`, those in `W` may be written, and those in `C` may get a new parent. -/
structure Touches (s s' : Pager) (W C : Set ℕ) : Prop where
  numPages : s.numPages ≤ s'.numPages
  page : ∀ q < s.numPages, q ∉ W → q ∉ C → s'.page q = s.page q
  moved : ∀ q < s.numPages, q ∉ W → SameButParent (s'.page q) (s.page q)

variable {s s' s'' : Pager} {W W' C C' : Set ℕ} {n : ℕ}

theorem Touches.refl (s : Pager) : Touches s s W C :=
  ⟨le_rfl, fun _ _ _ _ => rfl, fun _ _ _ => SameButParent.refl _⟩

theorem Touches.trans (h : Touches s s' W C) (h' : Touches s' s'' W C) : Touches s s'' W C where
  numPages := h.numPages.trans h'.numPages
  page q hq hW hC := (h'.page q (hq.trans_le h.numPages) hW hC).trans (h.page q hq hW hC)
  moved q hq hW := (h'.moved q (hq.trans_le h.numPages) hW).trans (h.moved q hq hW)

theorem Touches.mono (h : Touches s s' W C) (hW : W ⊆ W') (hC : C ⊆ C') : Touches s s' W' C' :=
  ⟨h.numPages, fun q hq hqW hqC => h.page q hq (fun hm => hqW (hW hm)) fun hm => hqC (hC hm),
    fun q hq hqW => h.moved q hq fun hm => hqW (hW hm)⟩

theorem Touches.markDirty (h : Touches s s' W C) (n : ℕ) : Touches s (pagerMarkDirty s' n) W C :=
  ⟨h.numPages, h.page, h.moved⟩

/-- Write a page that may be written, or one that is new. -/
theorem Touches.write (h : Touches s s' W C) (hn : n ∈ W ∨ s.numPages ≤ n) (p : Page) :
    Touches s (s'.setPage n p) W C := by
  have hne : ∀ q < s.numPages, q ∉ W → (s'.setPage n p).page q = s'.page q := by
    intro q hq hW
    rw [page_setPage, Function.update_of_ne]
    rintro rfl
    rcases hn with hn | hn
    · exact hW hn
    · exact absurd hq (not_lt.mpr hn)
  exact ⟨h.numPages, fun q hq hW hC => (hne q hq hW).trans (h.page q hq hW hC),
    fun q hq hW => hne q hq hW ▸ h.moved q hq hW⟩

/-- Give a page another parent. -/
theorem Touches.setParent (h : Touches s s' W C) (hn : n ∈ C) {parent : ℕ} (hfits : Fits parent) :
    Touches s (s'.setPage n (setParentPointer (s'.page n) parent)) W C := by
  refine ⟨h.numPages, fun q hq hW hC => ?_, fun q hq hW => ?_⟩
  · have hne : q ≠ n := by
      rintro rfl
      exact hC hn
    rw [page_setPage, Function.update_of_ne hne]
    exact h.page q hq hW hC
  · by_cases heq : q = n
    · subst heq
      rw [page_setPage, Function.update_self]
      exact (sameButParent_setParentPointer _ hfits).trans (h.moved q hq hW)
    · rw [page_setPage, Function.update_of_ne heq]
      exact h.moved q hq hW

theorem Touches.getPage (h : Touches s s' W C) (hget : pagerGetPage s' n = some s'') :
    Touches s s'' W C := by
  have hpage := page_pagerGetPage hget
  exact ⟨h.numPages.trans (numPages_pagerGetPage hget), hpage ▸ h.page, hpage ▸ h.moved⟩

/-! ## The steps -/

theorem touches_setParentPointers {cs : List (ℕ × ℕ)} {b : Bool}
    (hcs : ∀ c ∈ cs, c.1 ∈ C ∧ Fits c.2) (hrun : setParentPointers cs s = (b, s')) :
    Touches s s' W C := by
  induction cs generalizing s with
  | nil =>
    cases hrun
    exact Touches.refl _
  | cons c cs ih =>
    obtain ⟨hc, hfits⟩ := hcs c List.mem_cons_self
    unfold setParentPointers at hrun
    split at hrun
    · cases hrun
      exact Touches.refl _
    next s₁ hget =>
      exact (((Touches.refl s).getPage hget).setParent hc hfits).trans
        (ih (fun d hd => hcs d (List.mem_cons_of_mem _ hd)) hrun)

theorem touches_internalNodeInsert {cellNum left right : ℕ} {key : Int64} {r : CommandResult}
    (hn : n ∈ W) (hrun : internalNodeInsert s n cellNum key left right = (r, s')) :
    Touches s s' W C := by
  unfold internalNodeInsert at hrun
  split at hrun
  · cases hrun
    exact Touches.refl s
  · cases hrun
    exact ((Touches.refl s).write (Or.inl hn) _).markDirty n

theorem touches_splitInternalRoot {keys : List Int64} {children : List ℕ} {r : CommandResult}
    (hn : n ∈ W) (hC : ∀ c ∈ children, c ∈ C)
    (hrun : splitInternalRoot s n keys children = (r, s')) : Touches s s' W C := by
  unfold splitInternalRoot at hrun
  dsimp only at hrun
  split at hrun
  · cases hrun
    exact Touches.refl s
  next s₁ hget₁ =>
    have hnum₁ := numPages_pagerGetPage hget₁
    have h₁ : Touches s s₁ W C := (Touches.refl s).getPage hget₁
    split at hrun
    · cases hrun
      exact h₁
    next s₂ hget₂ =>
      have h₂ := h₁.getPage hget₂
      have hset := fun p p' => (h₂.write (Or.inr le_rfl) p).write (Or.inr hnum₁) p'
      have hcs : ∀ c ∈ children.zipIdx.map fun c =>
          (c.1, if c.2 ≤ internalNodeMaxKeys / 2 then s.numPages else s₁.numPages),
          c.1 ∈ C ∧ Fits c.2 := by
        intro c hc
        obtain ⟨d, hd, rfl⟩ := List.mem_map.mp hc
        refine ⟨hC d.1 (List.fst_mem_of_mem_zipIdx hd), ?_⟩
        dsimp only
        split
        · exact fits_of_le (m := tablesMaxPages) (lt_of_pagerGetPage hget₁).le
        · exact fits_of_le (m := tablesMaxPages) (lt_of_pagerGetPage hget₂).le
      split at hrun
      next heq =>
        cases hrun
        exact (hset _ _).trans (touches_setParentPointers hcs heq)
      next s₃ heq =>
        cases hrun
        exact (((((hset _ _).trans (touches_setParentPointers hcs heq)).write
          (Or.inl hn) _).markDirty
          _).markDirty _).markDirty _

/-- The page of a node that was split still names its parent. -/
theorem touches_splitInternalHalves {keys : List Int64} {children : List ℕ} {right : Option ℕ}
    (hlt : n < s.numPages) (hn : n ∈ W) (hC : ∀ c ∈ children, c ∈ C) (hnot : n ∉ children)
    (hrun : splitInternalHalves s n keys children = (right, s')) :
    Touches s s' W C ∧ (right ≠ none → right = some s.numPages ∧
      parentPointer (s'.page n) = parentPointer (s.page n)) := by
  unfold splitInternalHalves at hrun
  dsimp only at hrun
  obtain ⟨s₀, hs₀⟩ : ∃ s₀, s₀ = s.setPage n
    ((s.page n).zero internalNodeHeaderSize internalNodeSpaceForCells) := ⟨_, rfl⟩
  have h₀ : Touches s s₀ W C := hs₀ ▸ (Touches.refl s).write (Or.inl hn) _
  have hparent₀ : parentPointer (s₀.page n) = parentPointer (s.page n) := by
    have hzero : header ((s.page n).zero internalNodeHeaderSize internalNodeSpaceForCells) =
        header (s.page n) := header_zero le_rfl
    rw [hs₀, page_setPage, Function.update_self, parentPointer_eq, hzero, ← parentPointer_eq]
  rw [← hs₀, hs₀, numPages_setPage, ← hs₀] at hrun
  have hne : n ≠ s.numPages := hlt.ne
  have hfits : Fits (parentPointer (s.page n)) := Mem.readNat_lt ..
  split at hrun
  · cases hrun
    exact ⟨h₀, fun hr => absurd rfl hr⟩
  next s₁ hget =>
    have h₁ := h₀.getPage hget
    have hright : Fits s.numPages := fits_of_le (m := tablesMaxPages) (lt_of_pagerGetPage hget).le
    obtain ⟨L, hL⟩ : ∃ L, L = setRightChild (writeInternalCells 0
      ((keys.take (internalNodeMaxKeys / 2)).zip (children.take (internalNodeMaxKeys / 2)))
        (internalNodeInit (s₁.page n) 0)) (children.getD (internalNodeMaxKeys / 2) 0) := ⟨_, rfl⟩
    have hparentL : parentPointer L = parentPointer (s.page n) := by
      have hwrite : ∀ p : Page, parentPointer (setRightChild p
          (children.getD (internalNodeMaxKeys / 2) 0)) = parentPointer p := fun p =>
        Mem.readNat_congr (Mem.read_writeNat_of_disjoint (by decide))
      rw [hL, hwrite, parentPointer_eq, header_writeInternalCells, header_internalNodeInit,
        page_pagerGetPage hget]
      exact hparent₀
    rw [← hL] at hrun
    have hset := fun p => (h₁.write (Or.inl hn) L).write (n := s.numPages) (Or.inr le_rfl) p
    have hcs : ∀ c ∈ (children.drop (internalNodeMaxKeys / 2 + 1)).map fun c => (c, s.numPages),
        c.1 ∈ C ∧ Fits c.2 := by
      intro c hc
      obtain ⟨d, hd, rfl⟩ := List.mem_map.mp hc
      exact ⟨hC d (List.mem_of_mem_drop hd), hright⟩
    split at hrun
    next heq =>
      cases hrun
      exact ⟨(hset _).trans (touches_setParentPointers hcs heq), fun hr => absurd rfl hr⟩
    next s₃ heq =>
      have h₃ := (hset _).trans (touches_setParentPointers hcs heq)
      -- the loop over the children does not come to the page itself
      have hpage₃ : s₃.page n = L := by
        have hkept := (touches_setParentPointers (W := ∅) (C := {q | q ≠ n}) (fun c hc => by
          obtain ⟨d, hd, rfl⟩ := List.mem_map.mp hc
          refine ⟨?_, hright⟩
          rintro rfl
          exact hnot (List.mem_of_mem_drop hd)) heq).page n
          (hlt.trans_le h₁.numPages) (Set.notMem_empty n) (fun hr => hr rfl)
        rw [hkept, page_setPage, Function.update_of_ne hne, page_setPage, Function.update_self]
      rw [hpage₃, hparentL] at hrun
      obtain ⟨s₄, hs₄⟩ : ∃ s₄, s₄ = s₃.setPage s.numPages
        (setParentPointer (s₃.page s.numPages) (parentPointer (s.page n))) := ⟨_, rfl⟩
      obtain ⟨s₅, hs₅⟩ : ∃ s₅, s₅ = s₄.setPage n
        (setParentPointer (s₄.page n) (parentPointer (s.page n))) := ⟨_, rfl⟩
      obtain ⟨s₆, hs₆⟩ : ∃ s₆, s₆ = s₅.setPage n (setNumCells (s₅.page n)
        (internalNodeMaxKeys / 2)) := ⟨_, rfl⟩
      obtain ⟨s₇, hs₇⟩ : ∃ s₇, s₇ = s₆.setPage s.numPages (setNumCells (s₆.page s.numPages)
        (internalNodeMaxKeys - internalNodeMaxKeys / 2)) := ⟨_, rfl⟩
      have h₇ : Touches s s₇ W C := by
        rw [hs₇, hs₆, hs₅, hs₄]
        exact (((h₃.write (Or.inr le_rfl) _).write (Or.inl hn) _).write (Or.inl hn) _).write
          (Or.inr le_rfl) _
      have hpage₇ : parentPointer (s₇.page n) = parentPointer (s.page n) := by
        rw [hs₇, page_setPage, Function.update_of_ne hne, hs₆, page_setPage, Function.update_self,
          hs₅, page_setPage, Function.update_self, parentPointer_eq,
          header_setNumCells _ (by decide), header_setParentPointer _ hfits]
      rw [← hs₄, ← hs₅, ← hs₆, ← hs₇] at hrun
      split at hrun
      · cases hrun
        exact ⟨h₇, fun hr => absurd rfl hr⟩
      next s₈ hget₈ =>
        cases hrun
        refine ⟨((h₇.getPage hget₈).markDirty _).markDirty _, fun _ => ⟨rfl, ?_⟩⟩
        rw [page_pagerMarkDirty, page_pagerMarkDirty, page_pagerGetPage hget₈, hpage₇]

/-! ## The way up -/

/-- The pages from a parent up to the root; none of them is a child of one that comes before it. -/
def Ancestry (m : ℕ → Page) : List ℕ → Prop
  | [] => False
  | [n] => isRoot (m n) = 1
  | n :: n' :: ns =>
    ChildOf (m n) n' ∧ (∀ q ∈ n :: n' :: ns, q ∉ internalChildren (m n)) ∧ Ancestry m (n' :: ns)

theorem Ancestry.congr {m m' : ℕ → Page} {ns : List ℕ} (h : Ancestry m ns)
    (hm : ∀ q ∈ ns, m' q = m q) : Ancestry m' ns := by
  induction ns with
  | nil => exact h
  | cons n ns ih =>
    have hn : m' n = m n := hm n List.mem_cons_self
    cases ns with
    | nil => exact (congrArg isRoot hn).trans h
    | cons n' ns =>
      obtain ⟨hchild, hnot, hup⟩ := h
      refine ⟨hn ▸ hchild, fun q hq => ?_, ih hup fun q hq => hm q (List.mem_cons_of_mem _ hq)⟩
      rw [hn]
      exact hnot q hq

theorem mem_tempChildren {p : Page} {c left right q : ℕ} (hq : q ∈ tempChildren p c left right) :
    q ∈ internalChildren p ∨ q = left ∨ q = right := by
  rw [tempChildren_eq] at hq
  rcases List.mem_append.mp hq with hq | hq
  · exact Or.inl (List.mem_of_mem_take hq)
  · rcases List.mem_cons.mp hq with rfl | hq
    · exact Or.inr (Or.inl rfl)
    · rcases List.mem_cons.mp hq with rfl | hq
      · exact Or.inr (Or.inr rfl)
      · exact Or.inl (List.mem_of_mem_drop hq)

/-- `split_internal_node` with every index of its two arrays checked, at this call and at those for
the pages above: `none` when one is out of range. -/
def splitInternalNodeChecked :
    ℕ → Pager → ℕ → Int64 → ℕ → ℕ → Option (Exec (CommandResult × Pager))
  | 0, _, _, _, _, _ => some (.error .endless)
  | fuel + 1, s, oldPageNum, newKey, left, right =>
    let oldPage := s.page oldPageNum
    match checkedBuffers oldPage (internalNodeFind oldPage newKey) newKey left right with
    | none => none
    | some (keys, children) =>
      let promoted := keys.getD (internalNodeMaxKeys / 2) 0
      if isRoot oldPage = 1 then some (.ok (splitInternalRoot s oldPageNum keys children))
      else
        match splitInternalHalves s oldPageNum keys children with
        | (none, s) => some (.ok (.failure, s))
        | (some newPage, s) =>
          let parent := parentPointer (s.page oldPageNum)
          let cellNum := internalNodeFind (s.page parent) promoted
          match internalNodeInsert s parent cellNum promoted oldPageNum newPage with
          | (.internalNodeFullError, s) =>
            splitInternalNodeChecked fuel s parent promoted oldPageNum newPage
          | (_, s) => some (.ok (.commandSuccess, s))

/-- `insertParent` with the same checks. -/
def insertParentChecked (fuel : ℕ) (s : Pager) (parent : ℕ) (key : Int64) (left right : ℕ) :
    Option (Exec (CommandResult × Pager)) :=
  match internalNodeInsert s parent (internalNodeFind (s.page parent) key) key left right with
  | (.internalNodeFullError, s) => splitInternalNodeChecked fuel s parent key left right
  | (_, s) => some (.ok (.commandSuccess, s))

section Parent

variable {fuel left right : ℕ} {key : Int64}

/-- A parent with room takes the separator. -/
theorem touches_insertParent_of_lt (hn : n ∈ W)
    (hroom : numCells (s.page n) < internalNodeMaxKeys) :
    ∃ r s', insertParent fuel s n key left right = .ok (r, s') ∧ Touches s s' W C ∧
      insertParentChecked fuel s n key left right =
        some (insertParent fuel s n key left right) := by
  have hins : internalNodeInsert s n (internalNodeFind (s.page n) key) key left right = _ :=
    internalNodeInsert_of_lt hroom
  have hrun : insertParent fuel s n key left right = .ok (internalNodeInsert s n
      (internalNodeFind (s.page n) key) key left right) := by
    rw [insertParent, promoteInto_of_lt hroom]
  refine ⟨.commandSuccess, _, ?_, touches_internalNodeInsert hn hins, ?_⟩
  · rw [hrun, hins]
  · rw [hrun, insertParentChecked, hins]

theorem insertParentChecked_of_ge (hfull : internalNodeMaxKeys ≤ numCells (s.page n)) :
    insertParentChecked fuel s n key left right =
      splitInternalNodeChecked fuel s n key left right := by
  rw [insertParentChecked, internalNodeInsert, if_pos hfull]

/-- A full page that is not too full is split without an index out of range. -/
theorem checkedBuffers_of_full (hfull : internalNodeMaxKeys ≤ numCells (s.page n))
    (hmax : numCells (s.page n) ≤ internalNodeMaxKeys) :
    checkedBuffers (s.page n) (internalNodeFind (s.page n) key) key left right =
      some (tempKeys (s.page n) (internalNodeFind (s.page n) key) key,
        tempChildren (s.page n) (internalNodeFind (s.page n) key) left right) :=
  checkedBuffers_eq (le_antisymm hmax hfull) ((internalNodeFind_le _ key).trans hmax) key left right

/-- A full root is split under itself, whatever comes of it. -/
theorem insertParent_of_root (hfull : internalNodeMaxKeys ≤ numCells (s.page n))
    (hroot : isRoot (s.page n) = 1) :
    insertParent (fuel + 1) s n key left right = .ok (splitInternalRoot s n
        (tempKeys (s.page n) (internalNodeFind (s.page n) key) key)
        (tempChildren (s.page n) (internalNodeFind (s.page n) key) left right)) ∧
      (numCells (s.page n) ≤ internalNodeMaxKeys →
        insertParentChecked (fuel + 1) s n key left right =
          some (insertParent (fuel + 1) s n key left right)) := by
  have hrun : insertParent (fuel + 1) s n key left right = .ok (splitInternalRoot s n
      (tempKeys (s.page n) (internalNodeFind (s.page n) key) key)
      (tempChildren (s.page n) (internalNodeFind (s.page n) key) left right)) :=
    insertParent_of_result hfull (splitInternalStep_root hroot)
  refine ⟨hrun, fun hmax => ?_⟩
  rw [hrun, insertParentChecked_of_ge hfull, splitInternalNodeChecked]
  simp only [checkedBuffers_of_full hfull hmax, if_pos hroot]

/-- Another full page is split in halves, and its parent is next. -/
theorem insertParent_of_child (hfull : internalNodeMaxKeys ≤ numCells (s.page n))
    (hroot : ¬ isRoot (s.page n) = 1) {keys : List Int64} {children : List ℕ}
    (hkeys : keys = tempKeys (s.page n) (internalNodeFind (s.page n) key) key)
    (hchildren : children =
      tempChildren (s.page n) (internalNodeFind (s.page n) key) left right)
    {o : Option ℕ} (hsplit : splitInternalHalves s n keys children = (o, s')) :
    (insertParent (fuel + 1) s n key left right = match o with
      | none => .ok (.failure, s')
      | some newPage => insertParent fuel s' (parentPointer (s'.page n))
        (keys.getD (internalNodeMaxKeys / 2) 0) n newPage) ∧
    (numCells (s.page n) ≤ internalNodeMaxKeys →
      insertParentChecked (fuel + 1) s n key left right = match o with
        | none => some (.ok (.failure, s'))
        | some newPage => insertParentChecked fuel s' (parentPointer (s'.page n))
          (keys.getD (internalNodeMaxKeys / 2) 0) n newPage) := by
  constructor
  · have hstep := splitInternalStep_halves hroot hkeys hchildren hsplit
    cases o with
    | none => exact insertParent_of_result hfull hstep
    | some newPage => exact insertParent_of_step hfull hstep
  · intro hmax
    rw [insertParentChecked_of_ge hfull, splitInternalNodeChecked]
    simp only [checkedBuffers_of_full hfull hmax, if_neg hroot, ← hkeys, ← hchildren, hsplit]
    cases o with
    | none => rfl
    | some newPage => rfl

end Parent

/-- **A separator on its way up ends somewhere and spares every page that is not an ancestor.**  As
long as no ancestor has too many keys, no index is out of range. -/
theorem touches_insertParent (ns : List ℕ) {fuel left right : ℕ} {key : Int64}
    (hup : Ancestry s.page (n :: ns)) (hnd : (n :: ns).Nodup)
    (hlt : ∀ q ∈ n :: ns, q < s.numPages) (hleft : left ∉ n :: ns) (hright : right ∉ n :: ns)
    (hfuel : ns.length < fuel) :
    ∃ r s', insertParent fuel s n key left right = .ok (r, s') ∧
      Touches s s' {q | q ∈ n :: ns} Set.univ ∧
      ((∀ q ∈ n :: ns, numCells (s.page q) ≤ internalNodeMaxKeys) →
        insertParentChecked fuel s n key left right =
          some (insertParent fuel s n key left right)) := by
  induction ns generalizing fuel s n left right key with
  | nil =>
    have hmem : n ∈ {q | q ∈ [n]} := List.mem_singleton_self n
    rcases Nat.lt_or_ge (numCells (s.page n)) internalNodeMaxKeys with hroom | hfull
    · obtain ⟨r, s', hrun, htouch, hchecked⟩ := touches_insertParent_of_lt hmem hroom
      exact ⟨r, s', hrun, htouch, fun _ => hchecked⟩
    -- the root is split under itself
    obtain ⟨fuel, rfl⟩ := Nat.exists_eq_add_of_lt hfuel
    obtain ⟨hrun, hchecked⟩ := insertParent_of_root hfull (show isRoot (s.page n) = 1 from hup)
    rcases hsplit : splitInternalRoot s n
      (tempKeys (s.page n) (internalNodeFind (s.page n) key) key)
      (tempChildren (s.page n) (internalNodeFind (s.page n) key) left right) with ⟨r, s₁⟩
    rw [hsplit] at hrun
    exact ⟨r, s₁, hrun, touches_splitInternalRoot hmem (fun c _ => Set.mem_univ c) hsplit,
      fun hsmall => hchecked (hsmall n List.mem_cons_self)⟩
  | cons n' ns ih =>
    have hmem : n ∈ {q | q ∈ n :: n' :: ns} := List.mem_cons_self
    rcases Nat.lt_or_ge (numCells (s.page n)) internalNodeMaxKeys with hroom | hfull
    · obtain ⟨r, s', hrun, htouch, hchecked⟩ := touches_insertParent_of_lt hmem hroom
      exact ⟨r, s', hrun, htouch, fun _ => hchecked⟩
    obtain ⟨hchild, hnot, hup'⟩ := hup
    obtain ⟨hn, hnd'⟩ := List.nodup_cons.mp hnd
    have hnotroot : ¬ isRoot (s.page n) = 1 := by
      rw [hchild.isRoot]
      decide
    obtain ⟨fuel, rfl⟩ := Nat.exists_eq_add_of_lt hfuel
    obtain ⟨keys, hkeys⟩ : ∃ keys, keys =
      tempKeys (s.page n) (internalNodeFind (s.page n) key) key := ⟨_, rfl⟩
    obtain ⟨children, hchildren⟩ : ∃ children, children =
      tempChildren (s.page n) (internalNodeFind (s.page n) key) left right := ⟨_, rfl⟩
    -- no ancestor is among the children that get another parent
    have hapart : ∀ q ∈ n :: n' :: ns, q ∉ children := by
      intro q hq hmem'
      rcases mem_tempChildren (hchildren ▸ hmem') with h | rfl | rfl
      · exact hnot q hq h
      · exact hleft hq
      · exact hright hq
    rcases hsplit : splitInternalHalves s n keys children with ⟨o, s₁⟩
    obtain ⟨hrun, hchecked⟩ := insertParent_of_child hfull hnotroot hkeys hchildren hsplit
    obtain ⟨h₁, hsome⟩ := touches_splitInternalHalves (W := {n}) (C := {q | q ∈ children})
      (hlt n List.mem_cons_self) (Set.mem_singleton n) (fun _ hc => hc)
      (hapart n List.mem_cons_self) hsplit
    have h₁' : Touches s s₁ {q | q ∈ n :: n' :: ns} Set.univ :=
      h₁.mono (fun q hq => hq ▸ hmem) (Set.subset_univ _)
    cases o with
    | none =>
      refine ⟨.failure, s₁, hrun, h₁', fun hsmall => ?_⟩
      rw [hchecked (hsmall n List.mem_cons_self), hrun]
    | some newPage =>
      obtain ⟨hnew, hparent⟩ := hsome (Option.some_ne_none _)
      obtain rfl : newPage = s.numPages := Option.some_inj.mp hnew
      rw [hparent, hchild.parent] at hrun hchecked
      have hkept : ∀ q ∈ n' :: ns, s₁.page q = s.page q := fun q hq =>
        h₁.page q (hlt q (List.mem_cons_of_mem _ hq)) (fun heq => hn (heq ▸ hq))
          (hapart q (List.mem_cons_of_mem _ hq))
      have hnewpage : s.numPages ∉ n' :: ns := fun hq =>
        lt_irrefl _ (hlt _ (List.mem_cons_of_mem _ hq))
      obtain ⟨r, s₂, hrun', h₂, hchecked'⟩ := ih (hup'.congr hkept) hnd'
        (fun q hq => (hlt q (List.mem_cons_of_mem _ hq)).trans_le h₁.numPages) hn hnewpage
        (show ns.length < (n' :: ns).length + fuel by rw [List.length_cons]; omega)
      refine ⟨r, s₂, hrun.trans hrun', h₁'.trans (h₂.mono (fun q hq => List.mem_cons_of_mem _ hq)
        fun q hq => hq), fun hsmall => ?_⟩
      rw [hchecked (hsmall n List.mem_cons_self), hrun]
      refine hchecked' fun q hq => ?_
      rw [hkept q hq]
      exact hsmall q (List.mem_cons_of_mem _ hq)

/-- A child that is an inner node hands its ancestors on: its parent in front of those of the
parent.  None of them is in the subtree of the child. -/
theorem Stored.ancestry_child {m : ℕ → Page} {rowSize h next : ℕ} {t : PageTree (h + 2)}
    {b : PageTree (h + 1)} {up : List ℕ} (hst : Stored m rowSize t next) (hnd : t.labels.Nodup)
    (hup : Ancestry m (t.page :: up)) (hout : ∀ q ∈ up, q ∉ t.labels)
    (hb : b ∈ t.kids.children) :
    Ancestry m (b.page :: t.page :: up) ∧ ∀ q ∈ t.page :: up, q ∉ b.labels := by
  obtain ⟨e, hstb, hchild⟩ := hst.2.exists_of_mem hb
  have hle := Tree.labels_le_of_mem hb
  have houtb : ∀ q ∈ t.page :: up, q ∉ b.labels := by
    intro q hq hmem
    rcases List.mem_cons.mp hq with rfl | hq
    · exact Tree.page_notMem_child hnd hb hmem
    · exact hout q hq (Multiset.mem_of_le hle hmem)
  refine ⟨⟨hchild, fun q hq hmem => ?_, hup⟩, houtb⟩
  -- the children of `b` are below it
  have hbelow : q ∈ b.below := by
    rw [hstb.1.children] at hmem
    obtain ⟨c, hc, rfl⟩ := List.mem_map.mp hmem
    exact Multiset.mem_of_le (Tree.labels_le_below hc) (Tree.page_mem_labels c)
  rcases List.mem_cons.mp hq with rfl | hq
  · exact Tree.page_notMem_below (Multiset.nodup_of_le hle hnd) hbelow
  · exact houtb q hq (Multiset.mem_of_le (Tree.below_le_labels b) hbelow)

/-- **Every node below the root of a stored tree has its ancestors**: `up` are those of the root of
the subtree. -/
theorem Stored.exists_ancestry {m : ℕ → Page} {rowSize maxCells d : ℕ} {c : PageTree d} :
    {j : ℕ} → {t : PageTree (d + (j + 1))} → {next : ℕ} → {up : List ℕ} →
    Stored m rowSize t next → t.Sized maxCells internalNodeMaxKeys → t.labels.Nodup →
    Ancestry m (t.page :: up) → up.Nodup → (∀ q ∈ up, q ∉ t.labels) →
    c ∈ (t.level d (j + 1)).children →
    ∃ n ns, ChildOf (m c.page) n ∧ Ancestry m (n :: ns) ∧ (n :: ns).Nodup ∧
      (∀ q ∈ n :: ns, q ∉ c.labels) ∧
      ∀ q ∈ n :: ns, q ∈ t.labels ∧ numCells (m q) ≤ internalNodeMaxKeys ∨ q ∈ up
  | 0, t, _, up, hst, hsize, hnd, hup, hndup, hout, hc => by
    have hc' : c ∈ (Tree.kids (h := d) t).children := by
      rw [← Kids.bind_one_right (Tree.kids (h := d) t)]
      exact hc
    obtain ⟨e, -, hchild⟩ := hst.2.exists_of_mem hc'
    have hnum : numCells (m t.page) ≤ internalNodeMaxKeys := hst.1.length_seps.trans_le hsize.2.1
    refine ⟨t.page, up, hchild, hup, List.nodup_cons.mpr
      ⟨fun hq => hout _ hq (Tree.page_mem_labels t), hndup⟩, fun q hq hmem => ?_, fun q hq => ?_⟩
    · rcases List.mem_cons.mp hq with rfl | hq
      · exact Tree.page_notMem_child hnd hc' hmem
      · exact hout q hq (Multiset.mem_of_le (Tree.labels_le_of_mem hc') hmem)
    · rcases List.mem_cons.mp hq with rfl | hq
      · exact Or.inl ⟨Tree.page_mem_labels t, hnum⟩
      · exact Or.inr hq
  | j + 1, t, _, up, hst, hsize, hnd, hup, hndup, hout, hc => by
    rw [Tree.level_succ, Kids.children_bind] at hc
    obtain ⟨b, hb, hcb⟩ := List.mem_flatMap.mp hc
    obtain ⟨e, hstb, -⟩ := hst.2.exists_of_mem hb
    have hle := Tree.labels_le_of_mem hb
    have hnum : numCells (m t.page) ≤ internalNodeMaxKeys := hst.1.length_seps.trans_le hsize.2.1
    obtain ⟨hup', houtb⟩ := Stored.ancestry_child hst hnd hup hout hb
    obtain ⟨n, ns, h1, h2, h3, h4, h5⟩ := Stored.exists_ancestry hstb (hsize.2.2 b hb)
      (Multiset.nodup_of_le hle hnd) hup'
      (List.nodup_cons.mpr ⟨fun hq => hout _ hq (Tree.page_mem_labels t), hndup⟩) houtb hcb
    refine ⟨n, ns, h1, h2, h3, h4, fun q hq => ?_⟩
    rcases h5 q hq with ⟨hmem, hcells⟩ | hq
    · exact Or.inl ⟨Multiset.mem_of_le hle hmem, hcells⟩
    · rcases List.mem_cons.mp hq with rfl | hq
      · exact Or.inl ⟨Tree.page_mem_labels t, hnum⟩
      · exact Or.inr hq

end MiniDB
