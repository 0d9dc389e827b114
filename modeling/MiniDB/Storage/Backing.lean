import MiniDB.Model.Command
import MiniDB.Pages.Header
import MiniDB.Storage.Paging

/-!
# Dirty pages are in the cache

`pager_close` writes every dirty page from its place in the cache.  That it is there, and counted,
is kept by every function that writes pages, on whatever pages it is called.

* `Pager.Backed`: cached pages are counted, and dirty pages are cached.
* `Pager.Keeps`: a step that keeps this, and the pages that are cached.
* `insertCommand_keeps`, `updateCommand_keeps`, `deleteCommand_keeps`, `createTable_keeps`,
  `selectCommand_keeps`: the commands keep it.
* `execute_keeps`, `openDatabase_backed`: **so does a statement**, and a file that was just opened
  starts with it.
-/

namespace MiniDB

namespace Pager

/-- Cached pages are counted, and dirty pages are cached. -/
structure Backed (s : Pager) : Prop where
  counted : ∀ n, (s.pages n).isSome → n < s.numPages
  dirty : ∀ n, s.pageDirty n = true → (s.pages n).isSome

/-- The cached pages of `s` are cached in `s'`, which is backed. -/
structure Keeps (s s' : Pager) : Prop where
  held : ∀ n, (s.pages n).isSome → (s'.pages n).isSome
  backed : s'.Backed

variable {s s' s'' : Pager} {n m : ℕ}

theorem Keeps.refl (h : s.Backed) : Keeps s s := ⟨fun _ hn => hn, h⟩

theorem Keeps.trans (h : Keeps s s') (h' : Keeps s' s'') : Keeps s s'' :=
  ⟨fun n hn => h'.held n (h.held n hn), h'.backed⟩

/-- Write a page that is cached. -/
theorem Keeps.setPage (h : Keeps s s') (hn : (s'.pages n).isSome) (p : Page) :
    Keeps s (s'.setPage n p) := by
  have hheld : ∀ m, ((s'.setPage n p).pages m).isSome ↔ (s'.pages m).isSome := by
    intro m
    by_cases heq : m = n
    · subst heq
      simp [Pager.setPage, hn]
    · simp [Pager.setPage, heq]
  exact ⟨fun m hm => (hheld m).mpr (h.held m hm),
    fun m hm => h.backed.counted m ((hheld m).mp hm),
    fun m hm => (hheld m).mpr (h.backed.dirty m hm)⟩

@[simp] theorem isSome_setPage (s : Pager) (n : ℕ) (p : Page) :
    ((s.setPage n p).pages n).isSome := by
  simp [Pager.setPage]

theorem held_setPage (hm : (s.pages m).isSome) (n : ℕ) (p : Page) :
    ((s.setPage n p).pages m).isSome := by
  by_cases heq : m = n
  · exact heq ▸ isSome_setPage s n p
  · simpa [Pager.setPage, heq] using hm

/-- Mark a page that is cached. -/
theorem Keeps.markDirty (h : Keeps s s') (hn : (s'.pages n).isSome) :
    Keeps s (pagerMarkDirty s' n) := by
  refine ⟨h.held, h.backed.counted, fun m hm => ?_⟩
  rw [pageDirty_pagerMarkDirty] at hm
  by_cases heq : m = n
  · exact heq ▸ hn
  · rw [Function.update_of_ne heq] at hm
    exact h.backed.dirty m hm

/-- Write a page that is cached and mark it. -/
theorem Keeps.write (h : Keeps s s') (hn : (s'.pages n).isSome) (p : Page) :
    Keeps s (pagerMarkDirty (s'.setPage n p) n) :=
  (h.setPage hn p).markDirty (isSome_setPage s' n p)

end Pager

open Pager

variable {s s' : Pager} {n : ℕ}

/-! ## The pages of a tree -/

/-- A page that was fetched is cached. -/
theorem Pager.Backed.getPage (h : s.Backed) (hget : pagerGetPage s n = some s') :
    Keeps s s' ∧ (s'.pages n).isSome := by
  unfold pagerGetPage at hget
  split at hget
  · cases hget
  split at hget
  next hn =>
    cases hget
    exact ⟨Keeps.refl h, hn⟩
  · dsimp only at hget
    split at hget
    · cases hget
    · cases hget
      have hheld : ∀ m, (s.pages m).isSome → ((s.setPage n (s.load n)).pages m).isSome :=
        fun m hm => held_setPage hm n _
      refine ⟨⟨hheld, fun m hm => ?_, fun m hm => hheld m (h.dirty m hm)⟩, isSome_setPage s n _⟩
      by_cases heq : m = n
      · rw [heq]
        exact lt_of_lt_of_le (Nat.lt_succ_self n) (le_max_right _ _)
      · have hm' : (s.pages m).isSome := by simpa [Pager.setPage, heq] using hm
        exact lt_of_lt_of_le (h.counted m hm') (le_max_left _ _)

theorem keeps_firstLeaf {fuel : ℕ} {leaf : Option ℕ} (h : s.Backed) (hn : (s.pages n).isSome)
    (hrun : firstLeaf fuel s n = .ok (leaf, s')) :
    Keeps s s' ∧ ∀ l, leaf = some l → (s'.pages l).isSome := by
  induction fuel generalizing s n with
  | zero => cases hrun
  | succ fuel ih =>
    rw [firstLeaf] at hrun
    split at hrun
    · split at hrun
      · cases hrun
        exact ⟨Keeps.refl h, fun l hl => by cases hl⟩
      next hget =>
        obtain ⟨hkeeps, hheld⟩ := h.getPage hget
        obtain ⟨hkeeps', hleaf⟩ := ih hkeeps.backed hheld hrun
        exact ⟨hkeeps.trans hkeeps', hleaf⟩
    · cases hrun
      refine ⟨Keeps.refl h, ?_⟩
      rintro l ⟨⟩
      exact hn

theorem keeps_leafNodeForKey {fuel : ℕ} {key : Int64} {leaf : Option ℕ} (h : s.Backed)
    (hn : (s.pages n).isSome) (hrun : leafNodeForKey key fuel s n = .ok (leaf, s')) :
    Keeps s s' ∧ ∀ l, leaf = some l → (s'.pages l).isSome := by
  induction fuel generalizing s n with
  | zero => cases hrun
  | succ fuel ih =>
    rw [leafNodeForKey] at hrun
    split at hrun
    · cases hrun
      refine ⟨Keeps.refl h, ?_⟩
      rintro l ⟨⟩
      exact hn
    · dsimp only at hrun
      split at hrun
      · cases hrun
        exact ⟨Keeps.refl h, fun l hl => by cases hl⟩
      next hget =>
        obtain ⟨hkeeps, hheld⟩ := h.getPage hget
        obtain ⟨hkeeps', hleaf⟩ := ih hkeeps.backed hheld hrun
        exact ⟨hkeeps.trans hkeeps', hleaf⟩

theorem keeps_setParentPointers {cs : List (ℕ × ℕ)} {b : Bool} (h : s.Backed)
    (hrun : setParentPointers cs s = (b, s')) : Keeps s s' := by
  induction cs generalizing s with
  | nil =>
    cases hrun
    exact Keeps.refl h
  | cons c cs ih =>
    unfold setParentPointers at hrun
    split at hrun
    · cases hrun
      exact Keeps.refl h
    next s₁ hget =>
      obtain ⟨hkeeps, hheld⟩ := h.getPage hget
      have hset := hkeeps.setPage hheld (setParentPointer (s₁.page c.1) c.2)
      exact hset.trans (ih hset.backed hrun)

/-! ## Insertion -/

theorem keeps_leafNodeInsert {leaf cellNum rowSize : ℕ} {key : Int64} {row : Row}
    {r : CommandResult} (h : s.Backed) (hleaf : (s.pages leaf).isSome)
    (hrun : leafNodeInsert s leaf cellNum key row rowSize = (r, s')) : Keeps s s' := by
  unfold leafNodeInsert at hrun
  split at hrun
  · cases hrun
    exact Keeps.refl h
  · cases hrun
    exact (Keeps.refl h).write hleaf _

theorem keeps_internalNodeInsert {cellNum left right : ℕ} {key : Int64} {r : CommandResult}
    (h : s.Backed) (hn : (s.pages n).isSome)
    (hrun : internalNodeInsert s n cellNum key left right = (r, s')) : Keeps s s' := by
  unfold internalNodeInsert at hrun
  split at hrun
  · cases hrun
    exact Keeps.refl h
  · cases hrun
    exact (Keeps.refl h).write hn _

theorem keeps_splitInternalRoot {old : ℕ} {keys : List Int64} {children : List ℕ}
    {r : CommandResult} (h : s.Backed) (hold : (s.pages old).isSome)
    (hrun : splitInternalRoot s old keys children = (r, s')) : Keeps s s' := by
  unfold splitInternalRoot at hrun
  dsimp only at hrun
  split at hrun
  · cases hrun
    exact Keeps.refl h
  next s₁ hget₁ =>
    obtain ⟨hk₁, hleft⟩ := h.getPage hget₁
    split at hrun
    · cases hrun
      exact hk₁
    next s₂ hget₂ =>
      obtain ⟨hk₂, hright⟩ := hk₁.backed.getPage hget₂
      have hset := fun p p' => ((hk₁.trans hk₂).setPage (hk₂.held _ hleft) p).setPage
        (held_setPage hright _ p) p'
      split at hrun
      next heq =>
        cases hrun
        exact (hset _ _).trans (keeps_setParentPointers (hset _ _).backed heq)
      next s₃ heq =>
        cases hrun
        have hk₃ := keeps_setParentPointers (hset _ _).backed heq
        have hleft₃ := hk₃.held _ (held_setPage (isSome_setPage s₂ s.numPages _) s₁.numPages _)
        have hright₃ := hk₃.held _ (isSome_setPage _ s₁.numPages _)
        have hold₃ := ((hset _ _).trans hk₃).held _ hold
        refine ((((hset _ _).trans hk₃).setPage hold₃ _).markDirty ?_).markDirty ?_ |>.markDirty ?_
        · exact held_setPage hleft₃ _ _
        · exact held_setPage hright₃ _ _
        · exact isSome_setPage _ _ _

theorem keeps_splitInternalHalves {old : ℕ} {keys : List Int64} {children : List ℕ}
    {right : Option ℕ} (h : s.Backed) (hold : (s.pages old).isSome)
    (hrun : splitInternalHalves s old keys children = (right, s')) :
    Keeps s s' ∧ (right ≠ none → (s'.pages (parentPointer (s'.page old))).isSome) := by
  unfold splitInternalHalves at hrun
  dsimp only at hrun
  have hzero := (Keeps.refl h).setPage hold
    ((s.page old).zero internalNodeHeaderSize internalNodeSpaceForCells)
  split at hrun
  · cases hrun
    exact ⟨hzero, fun hne => absurd rfl hne⟩
  next s₁ hget =>
    obtain ⟨hk₁, hright⟩ := hzero.backed.getPage hget
    have hold₁ := (hzero.trans hk₁).held _ hold
    have hset := fun p p' =>
      ((hzero.trans hk₁).setPage hold₁ p).setPage (held_setPage hright _ p) p'
    split at hrun
    next heq =>
      cases hrun
      exact ⟨(hset _ _).trans (keeps_setParentPointers (hset _ _).backed heq),
        fun hne => absurd rfl hne⟩
    next s₃ heq =>
      have hk₃ := (hset _ _).trans (keeps_setParentPointers (hset _ _).backed heq)
      have hold₃ := hk₃.held _ hold
      have hright₃ := (keeps_setParentPointers (hset _ _).backed heq).held _
        (isSome_setPage _ s.numPages _)
      have hne : old ≠ s.numPages := (h.counted old hold).ne
      obtain ⟨parent, hparent⟩ : ∃ k, k = parentPointer (s₃.page old) := ⟨_, rfl⟩
      have hfits : Fits parent := hparent ▸ Mem.readNat_lt ..
      rw [← hparent] at hrun
      -- both halves get their parent and their number of cells
      obtain ⟨s₄, hs₄⟩ : ∃ s₄, s₄ = s₃.setPage s.numPages
        (setParentPointer (s₃.page s.numPages) parent) := ⟨_, rfl⟩
      have hk₄ : Keeps s s₄ := hs₄ ▸ hk₃.setPage hright₃ _
      obtain ⟨s₅, hs₅⟩ : ∃ s₅, s₅ = s₄.setPage old (setParentPointer (s₄.page old) parent) :=
        ⟨_, rfl⟩
      have hk₅ : Keeps s s₅ := hs₅ ▸ hk₄.setPage (hk₄.held _ hold) _
      obtain ⟨s₆, hs₆⟩ : ∃ s₆, s₆ = s₅.setPage old (setNumCells (s₅.page old)
        (internalNodeMaxKeys / 2)) := ⟨_, rfl⟩
      have hk₆ : Keeps s s₆ := hs₆ ▸ hk₅.setPage (hk₅.held _ hold) _
      have hright₆ : (s₆.pages s.numPages).isSome := by
        rw [hs₆, hs₅, hs₄]
        exact held_setPage (held_setPage (isSome_setPage _ _ _) _ _) _ _
      obtain ⟨s₇, hs₇⟩ : ∃ s₇, s₇ = s₆.setPage s.numPages (setNumCells (s₆.page s.numPages)
        (internalNodeMaxKeys - internalNodeMaxKeys / 2)) := ⟨_, rfl⟩
      have hk₇ : Keeps s s₇ := hs₇ ▸ hk₆.setPage hright₆ _
      have hpage₇ : parentPointer (s₇.page old) = parent := by
        rw [hs₇, page_setPage, Function.update_of_ne hne, hs₆, page_setPage, Function.update_self,
          hs₅, page_setPage, Function.update_self, parentPointer_eq,
          header_setNumCells _ (by decide), header_setParentPointer _ hfits]
      rw [numPages_setPage, ← hs₄, ← hs₅, ← hs₆, ← hs₇] at hrun
      split at hrun
      · cases hrun
        exact ⟨hk₇, fun hne => absurd rfl hne⟩
      next s₈ hget₈ =>
        cases hrun
        obtain ⟨hk₈, hheld⟩ := hk₇.backed.getPage hget₈
        have hk := hk₇.trans hk₈
        refine ⟨(hk.markDirty (hk.held _ hold)).markDirty ?_, fun _ => ?_⟩
        · refine hk₈.held _ ?_
          rw [hs₇]
          exact isSome_setPage _ _ _
        · rw [page_pagerMarkDirty, page_pagerMarkDirty, page_pagerGetPage hget₈, hpage₇]
          exact hheld

/-- What is kept up to a call of `split_internal_node`, or up to a result. -/
def KeepsTo (s : Pager) : SplitCall ⊕ (CommandResult × Pager) → Prop
  | .inl c => Keeps s c.pager ∧ (c.pager.pages c.page).isSome
  | .inr r => Keeps s r.2

theorem KeepsTo.trans {o : SplitCall ⊕ (CommandResult × Pager)} (h : Keeps s s')
    (h' : KeepsTo s' o) : KeepsTo s o := by
  cases o with
  | inl c => exact ⟨h.trans h'.1, h'.2⟩
  | inr r => exact Keeps.trans h h'

theorem keepsTo_promoteInto {parent left right : ℕ} {key : Int64} (h : s.Backed)
    (hparent : (s.pages parent).isSome) : KeepsTo s (promoteInto s parent key left right) := by
  unfold promoteInto
  dsimp only
  split
  next heq =>
    have hk := keeps_internalNodeInsert h hparent heq
    exact ⟨hk, hk.held _ hparent⟩
  next heq => exact keeps_internalNodeInsert h hparent heq

theorem keepsTo_splitInternalStep {old : ℕ} (left right : ℕ) (key : Int64) (h : s.Backed)
    (hold : (s.pages old).isSome) : KeepsTo s (splitInternalStep s old key left right) := by
  unfold splitInternalStep
  dsimp only
  split
  · exact keeps_splitInternalRoot h hold rfl
  · split
    next heq => exact (keeps_splitInternalHalves h hold heq).1
    next heq =>
      obtain ⟨hk, hparent⟩ := keeps_splitInternalHalves h hold heq
      exact (keepsTo_promoteInto hk.backed (hparent (Option.some_ne_none _))).trans hk

theorem keeps_splitInternalNode {fuel old left right : ℕ} {key : Int64} {r : CommandResult}
    (h : s.Backed) (hold : (s.pages old).isSome)
    (hrun : splitInternalNode fuel s old key left right = .ok (r, s')) : Keeps s s' := by
  induction fuel generalizing s old key left right with
  | zero => cases hrun
  | succ fuel ih =>
    have hk := keepsTo_splitInternalStep left right key h hold
    rw [splitInternalNode] at hrun
    split at hrun
    next heq =>
      rw [heq] at hk
      exact hk.1.trans (ih hk.1.backed hk.2 hrun)
    next heq =>
      rw [heq] at hk
      cases hrun
      exact hk

theorem keepsTo_splitLeafStep {table : Table} {old rowSize : ℕ} {key : Int64} {row : Row}
    {o : SplitCall ⊕ (CommandResult × Pager)} (h : s.Backed) (hold : (s.pages old).isSome)
    (hrun : splitLeafStep s table old key row rowSize = .ok o) : KeepsTo s o := by
  unfold splitLeafStep at hrun
  obtain ⟨entries, -, hrun⟩ := bind_eq_ok hrun
  dsimp only at hrun
  split at hrun
  · cases hrun
    exact Keeps.refl h
  next s₁ hget₁ =>
    obtain ⟨hk₁, hright⟩ := h.getPage hget₁
    have hwrite := fun p => hk₁.write hright p
    split at hrun
    · split at hrun
      · cases hrun
        exact hwrite _
      next s₃ hget₃ =>
        cases hrun
        obtain ⟨hk₃, hleft⟩ := (hwrite _).backed.getPage hget₃
        have hwrite' := fun p => ((hwrite _).trans hk₃).write hleft p
        exact (hwrite' _).write ((hwrite' _).held _ hold) _
    · have hwrite' := fun p p' => (hwrite p).write ((hwrite p).held _ hold) p'
      have hlink := fun p p' q => (hwrite' p p').setPage
        (held_setPage (isSome_setPage s₁ s.numPages p) old p') q
      have hlink' := fun p p' q q' => (hlink p p' q).setPage ((hlink p p' q).held _ hold) q'
      split at hrun
      · cases hrun
        exact hlink' _ _ _ _
      next s₅ hget₅ =>
        cases hrun
        obtain ⟨hk₅, hparent⟩ := (hlink' _ _ _ _).backed.getPage hget₅
        exact (keepsTo_promoteInto hk₅.backed hparent).trans ((hlink' _ _ _ _).trans hk₅)

theorem keeps_splitLeafNode {table : Table} {old rowSize : ℕ} {key : Int64} {row : Row}
    {r : CommandResult} (h : s.Backed) (hold : (s.pages old).isSome)
    (hrun : splitLeafNode s table old key row rowSize = .ok (r, s')) : Keeps s s' := by
  unfold splitLeafNode at hrun
  obtain ⟨o, hstep, hrun⟩ := bind_eq_ok hrun
  have hk := keepsTo_splitLeafStep h hold hstep
  cases o with
  | inl c => exact hk.1.trans (keeps_splitInternalNode hk.1.backed hk.2 hrun)
  | inr r =>
    cases hrun
    exact hk

/-! ## The commands -/

/-- **An `INSERT`.** -/
theorem insertCommand_keeps {table : Table} {name : List UInt8} {values : List Expr}
    {o : Outcome} (h : s.Backed)
    (hrun : insertCommand s table name values = .ok (o, s')) : Keeps s s' := by
  unfold insertCommand at hrun
  obtain ⟨n, -, hrun⟩ := bind_eq_ok hrun
  dsimp only at hrun
  split at hrun
  · cases hrun
    exact Keeps.refl h
  split at hrun
  · cases hrun
    exact Keeps.refl h
  split at hrun
  next =>
    obtain ⟨key, -, hrun⟩ := bind_eq_ok hrun
    split at hrun
    next s₁ hget₁ =>
      obtain ⟨hk₁, hroot⟩ := h.getPage hget₁
      obtain ⟨⟨leaf, s₂⟩, hdescent, hrun⟩ := bind_eq_ok hrun
      obtain ⟨hk₂, hleaf⟩ := keeps_leafNodeForKey hk₁.backed hroot hdescent
      have hk := hk₁.trans hk₂
      cases leaf with
      | none =>
        cases hrun
        exact hk
      | some leaf =>
        have hheld := hleaf leaf rfl
        dsimp only at hrun
        split at hrun
        · cases hrun
          exact hk
        obtain ⟨vs, -, hrun⟩ := bind_eq_ok hrun
        split at hrun
        next vs =>
          obtain ⟨⟨r, s₃⟩, hend, hrun⟩ := bind_eq_ok hrun
          cases hrun
          split at hend
          next heq =>
            have hk₃ := keeps_leafNodeInsert hk.backed hheld heq
            exact (hk.trans hk₃).trans (keeps_splitLeafNode hk₃.backed (hk₃.held _ hheld) hend)
          · exact hk.trans (keeps_leafNodeInsert hk.backed hheld (Except.ok.inj hend))
        · cases hrun
          exact hk
    · cases hrun
  · cases hrun

theorem keeps_updateCells {table : Table} {rowSize leaf : ℕ} {where_ : Option Expr}
    {as : List (ℕ × Expr)} {is : List ℕ} {dirty through dirty' : Bool} (h : s.Backed)
    (hleaf : (s.pages leaf).isSome)
    (hrun : updateCells table n rowSize where_ as leaf is dirty s = .ok (through, dirty', s')) :
    Keeps s s' := by
  induction is generalizing s dirty with
  | nil =>
    cases hrun
    exact Keeps.refl h
  | cons i is ih =>
    unfold updateCells at hrun
    obtain ⟨row, -, hrun⟩ := bind_eq_ok hrun
    obtain ⟨b, -, hrun⟩ := bind_eq_ok hrun
    split at hrun
    · obtain ⟨vs, -, hrun⟩ := bind_eq_ok hrun
      dsimp only at hrun
      split at hrun
      · have hset := fun p => (Keeps.refl h).setPage hleaf p
        exact (hset _).trans (ih (hset _).backed ((hset _).held _ hleaf) hrun)
      · cases hrun
        exact Keeps.refl h
    · exact ih h hleaf hrun

theorem keeps_updateLeaves {table : Table} {rowSize fuel leaf : ℕ} {where_ : Option Expr}
    {as : List (ℕ × Expr)} {o : Outcome} (h : s.Backed) (hleaf : (s.pages leaf).isSome)
    (hrun : updateLeaves table n rowSize where_ as fuel s leaf = .ok (o, s')) : Keeps s s' := by
  induction fuel generalizing s leaf with
  | zero => cases hrun
  | succ fuel ih =>
    unfold updateLeaves at hrun
    obtain ⟨⟨through, dirty, s₁⟩, hcells, hrun⟩ := bind_eq_ok hrun
    have hk₁ := keeps_updateCells h hleaf hcells
    dsimp only at hrun
    split at hrun
    · cases hrun
      exact hk₁
    · have hk₂ : Keeps s (if dirty = true then pagerMarkDirty s₁ leaf else s₁) := by
        split
        · exact hk₁.markDirty (hk₁.held _ hleaf)
        · exact hk₁
      generalize (if dirty = true then pagerMarkDirty s₁ leaf else s₁) = s₂ at hk₂ hrun
      split at hrun
      · cases hrun
        exact hk₂
      · split at hrun
        · cases hrun
          exact hk₂
        next hget =>
          obtain ⟨hk₃, hnext⟩ := hk₂.backed.getPage hget
          exact (hk₂.trans hk₃).trans (ih hk₃.backed hnext hrun)

/-- **An `UPDATE`.** -/
theorem updateCommand_keeps {table : Table} {name : List UInt8} {columns values : List Expr}
    {where_ : Option Expr} {o : Outcome} (h : s.Backed)
    (hrun : updateCommand s table name columns values where_ = .ok (o, s')) : Keeps s s' := by
  unfold updateCommand at hrun
  obtain ⟨n, -, hrun⟩ := bind_eq_ok hrun
  dsimp only at hrun
  split at hrun
  · cases hrun
    exact Keeps.refl h
  obtain ⟨as, -, hrun⟩ := bind_eq_ok hrun
  cases as with
  | error line =>
    cases hrun
    exact Keeps.refl h
  | ok as =>
    dsimp only at hrun
    split at hrun
    next s₁ hget₁ =>
      obtain ⟨hk₁, hroot⟩ := h.getPage hget₁
      obtain ⟨⟨leaf, s₂⟩, hdescent, hrun⟩ := bind_eq_ok hrun
      cases leaf with
      | none => cases hrun
      | some leaf =>
        obtain ⟨hk₂, hleaf⟩ := keeps_firstLeaf hk₁.backed hroot hdescent
        exact (hk₁.trans hk₂).trans (keeps_updateLeaves hk₂.backed (hleaf leaf rfl) hrun)
    · cases hrun
      exact Keeps.refl h

theorem keeps_deleteCells {table : Table} {rowSize leaf remaining i : ℕ} {where_ : Option Expr}
    {dirty dirty' : Bool} (h : s.Backed) (hleaf : (s.pages leaf).isSome)
    (hrun : deleteCells table n rowSize where_ leaf remaining i dirty s = .ok (dirty', s')) :
    Keeps s s' := by
  induction remaining generalizing s i dirty with
  | zero =>
    cases hrun
    exact Keeps.refl h
  | succ remaining ih =>
    unfold deleteCells at hrun
    obtain ⟨row, -, hrun⟩ := bind_eq_ok hrun
    obtain ⟨b, -, hrun⟩ := bind_eq_ok hrun
    split at hrun
    · have hset := fun p => (Keeps.refl h).setPage hleaf p
      exact (hset _).trans (ih (hset _).backed ((hset _).held _ hleaf) hrun)
    · exact ih h hleaf hrun

theorem keeps_deleteLeaves {table : Table} {rowSize fuel leaf : ℕ} {where_ : Option Expr}
    {r : CommandResult} (h : s.Backed) (hleaf : (s.pages leaf).isSome)
    (hrun : deleteLeaves table n rowSize where_ fuel s leaf = .ok (r, s')) : Keeps s s' := by
  induction fuel generalizing s leaf with
  | zero => cases hrun
  | succ fuel ih =>
    unfold deleteLeaves at hrun
    obtain ⟨⟨dirty, s₁⟩, hcells, hrun⟩ := bind_eq_ok hrun
    have hk₁ := keeps_deleteCells h hleaf hcells
    have hk₂ : Keeps s (if dirty = true then pagerMarkDirty s₁ leaf else s₁) := by
      split
      · exact hk₁.markDirty (hk₁.held _ hleaf)
      · exact hk₁
    dsimp only at hrun
    generalize (if dirty = true then pagerMarkDirty s₁ leaf else s₁) = s₂ at hk₂ hrun
    split at hrun
    · cases hrun
      exact hk₂
    · split at hrun
      · cases hrun
        exact hk₂
      next hget =>
        obtain ⟨hk₃, hnext⟩ := hk₂.backed.getPage hget
        exact (hk₂.trans hk₃).trans (ih hk₃.backed hnext hrun)

/-- **A `DELETE`.** -/
theorem deleteCommand_keeps {table : Table} {name : List UInt8} {where_ : Option Expr}
    {r : CommandResult} (h : s.Backed)
    (hrun : deleteCommand s table name where_ = .ok (r, s')) : Keeps s s' := by
  unfold deleteCommand at hrun
  obtain ⟨n, -, hrun⟩ := bind_eq_ok hrun
  dsimp only at hrun
  split at hrun
  next s₁ hget₁ =>
    obtain ⟨hk₁, hroot⟩ := h.getPage hget₁
    obtain ⟨⟨leaf, s₂⟩, hdescent, hrun⟩ := bind_eq_ok hrun
    cases leaf with
    | none => cases hrun
    | some leaf =>
      obtain ⟨hk₂, hleaf⟩ := keeps_firstLeaf hk₁.backed hroot hdescent
      exact (hk₁.trans hk₂).trans (keeps_deleteLeaves hk₂.backed (hleaf leaf rfl) hrun)
  · cases hrun
    exact Keeps.refl h

/-- **A `CREATE TABLE`.** -/
theorem createTable_keeps {name : List UInt8} {definitions : List ColumnDefinition}
    {o : Outcome} (h : s.Backed) (hzero : (s.pages 0).isSome)
    (hrun : createTable s name definitions = .ok (o, s')) : Keeps s s' := by
  unfold createTable at hrun
  dsimp only [pagerAllocatePage] at hrun
  split at hrun
  · cases hrun
    exact Keeps.refl h
  have halloc : Keeps s { s with numPages := s.numPages + 1 } :=
    ⟨fun _ hn => hn, fun n hn => Nat.lt_succ_of_lt (h.counted n hn), h.dirty⟩
  split at hrun
  next s₁ hget₁ =>
    obtain ⟨hk₁, hroot⟩ := halloc.backed.getPage hget₁
    have hset := fun p => (halloc.trans hk₁).setPage hroot p
    split at hrun
    · cases hrun
    · split at hrun
      · cases hrun
        exact (hset _).setPage ((hset _).held _ hzero) _
      · cases hrun
        have hset' := fun p q => (hset p).setPage ((hset p).held _ hzero) q
        refine ((hset' _ _).markDirty ?_).markDirty ?_
        · exact isSome_setPage _ _ _
        · exact held_setPage (isSome_setPage _ _ _) _ _
  · cases hrun

/-! ## Reading -/

theorem keeps_tableScanNext {table : Table} {page cell rowSize : ℕ} {done : Bool}
    {r : Option Row} {c : Cursor} (h : s.Backed)
    (hrun : tableScanNext s table page cell rowSize done = .ok (r, c, s')) : Keeps s s' := by
  unfold tableScanNext at hrun
  dsimp only at hrun
  split at hrun
  · cases hrun
    exact Keeps.refl h
  split at hrun
  next s₁ hget =>
    obtain ⟨hk₁, hpage⟩ := h.getPage hget
    obtain ⟨⟨leaf, s₂⟩, hdescent, hrun⟩ := bind_eq_ok hrun
    have hk₂ := hk₁.trans (keeps_firstLeaf hk₁.backed hpage hdescent).1
    cases leaf with
    | none =>
      cases hrun
      exact hk₂
    | some leaf =>
      dsimp only at hrun
      generalize (if nodeType (s₁.page page) = nodeInternal then 0 else cell) = first at hrun
      split at hrun
      · split at hrun
        · cases hrun
          exact hk₂
        split at hrun
        next s₃ hget₃ =>
          obtain ⟨row, -, hrun⟩ := bind_eq_ok hrun
          cases hrun
          exact hk₂.trans (hk₂.backed.getPage hget₃).1
        · cases hrun
          exact hk₂
      · obtain ⟨row, -, hrun⟩ := bind_eq_ok hrun
        cases hrun
        exact hk₂
  · cases hrun
    exact Keeps.refl h

theorem keeps_pkLookupNext {table : Table} {root rowSize : ℕ} {key : Int64} {done : Bool}
    {r : Option Row} {c : Cursor} (h : s.Backed)
    (hrun : pkLookupNext s table root key rowSize done = .ok (r, c, s')) : Keeps s s' := by
  unfold pkLookupNext at hrun
  split at hrun
  · cases hrun
    exact Keeps.refl h
  split at hrun
  next s₁ hget =>
    obtain ⟨hk₁, hroot⟩ := h.getPage hget
    obtain ⟨⟨leaf, s₂⟩, hdescent, hrun⟩ := bind_eq_ok hrun
    have hk₂ := hk₁.trans (keeps_leafNodeForKey hk₁.backed hroot hdescent).1
    cases leaf with
    | none => cases hrun
    | some leaf =>
      dsimp only at hrun
      split at hrun
      · cases hrun
        exact hk₂
      · obtain ⟨row, -, hrun⟩ := bind_eq_ok hrun
        cases hrun
        exact hk₂
  · cases hrun
    exact Keeps.refl h

theorem keeps_cursorNext {table : Table} {fuel : ℕ} {c c' : Cursor} {r : Option Row}
    (h : s.Backed) (hrun : cursorNext table fuel c s = .ok (r, c', s')) : Keeps s s' := by
  induction fuel generalizing s s' c c' r with
  | zero => cases hrun
  | succ fuel ih =>
    cases c with
    | tableScan => exact keeps_tableScanNext h hrun
    | pkLookup => exact keeps_pkLookupNext h hrun
    | filter child condition =>
      rw [cursorNext] at hrun
      obtain ⟨n, -, hrun⟩ := bind_eq_ok hrun
      obtain ⟨⟨row, child', s₁⟩, hnext, hrun⟩ := bind_eq_ok hrun
      have hk₁ := ih h hnext
      cases row with
      | none =>
        cases hrun
        exact hk₁
      | some row =>
        obtain ⟨b, -, hrun⟩ := bind_eq_ok hrun
        split at hrun
        · cases hrun
          exact hk₁
        · exact hk₁.trans (ih hk₁.backed hrun)
    | projection child columns =>
      rw [cursorNext] at hrun
      obtain ⟨⟨row, child', s₁⟩, hnext, hrun⟩ := bind_eq_ok hrun
      have hk₁ := ih h hnext
      cases row with
      | none =>
        cases hrun
        exact hk₁
      | some row =>
        obtain ⟨n, -, hrun⟩ := bind_eq_ok hrun
        obtain ⟨values, -, hrun⟩ := bind_eq_ok hrun
        cases hrun
        exact hk₁

theorem keeps_drain {table : Table} {fuel : ℕ} {c : Cursor} {rows : List Row} (h : s.Backed)
    (hrun : drain table fuel c s = .ok (rows, s')) : Keeps s s' := by
  induction fuel generalizing s c rows with
  | zero => cases hrun
  | succ fuel ih =>
    rw [drain] at hrun
    obtain ⟨⟨row, c', s₁⟩, hnext, hrun⟩ := bind_eq_ok hrun
    have hk₁ := keeps_cursorNext h hnext
    cases row with
    | none =>
      cases hrun
      exact hk₁
    | some row =>
      obtain ⟨⟨rows', s₂⟩, hrest, hrun⟩ := bind_eq_ok hrun
      cases hrun
      exact hk₁.trans (ih hk₁.backed hrest)

/-- **A `SELECT`.** -/
theorem selectCommand_keeps {table : Table} {tableNum : ℕ} {tree : AstNode} {columns : List Expr}
    {where_ : Option Expr} {o : Outcome} (h : s.Backed)
    (hrun : selectCommand s table tableNum tree columns where_ = .ok (o, s')) : Keeps s s' := by
  unfold selectCommand at hrun
  obtain ⟨plan, -, hrun⟩ := bind_eq_ok hrun
  obtain ⟨valid, -, hrun⟩ := bind_eq_ok hrun
  split at hrun
  · cases hrun
    exact Keeps.refl h
  obtain ⟨cursor, -, hrun⟩ := bind_eq_ok hrun
  obtain ⟨⟨rows, s₁⟩, hdrain, hrun⟩ := bind_eq_ok hrun
  obtain ⟨lines, -, hrun⟩ := bind_eq_ok hrun
  cases hrun
  exact keeps_drain h hdrain

/-! ## Statements -/

/-- **A statement.** -/
theorem execute_keeps {tree : AstNode} {o : Outcome} (h : s.Backed) (hzero : (s.pages 0).isSome)
    (hrun : execute s tree = .ok (o, s')) : Keeps s s' := by
  unfold execute at hrun
  obtain ⟨found, -, hrun⟩ := bind_eq_ok hrun
  cases found with
  | none =>
    cases tree with
    | createTable name definitions => exact createTable_keeps h hzero hrun
    | insert | select | updateTable | deleteTable =>
      cases hrun
      exact Keeps.refl h
  | some n =>
    cases tree with
    | createTable =>
      cases hrun
      exact Keeps.refl h
    | insert => exact insertCommand_keeps h hrun
    | select => exact selectCommand_keeps h hrun
    | updateTable => exact updateCommand_keeps h hrun
    | deleteTable =>
      obtain ⟨⟨r, s₁⟩, hcommand, hrun⟩ := bind_eq_ok hrun
      cases hrun
      exact deleteCommand_keeps h hcommand

/-- A file that was just opened has its catalog in the cache. -/
theorem openDatabase_backed {d : Disk} (hopen : openDatabase d = some s) :
    s.Backed ∧ (s.pages 0).isSome := by
  have hbacked : (pagerOpen d).Backed := by
    constructor
    · intro n hn
      cases hn
    · intro n hn
      cases hn
  unfold openDatabase at hopen
  dsimp only at hopen
  obtain ⟨s₁, hget, hopen⟩ := Option.bind_eq_some_iff.mp hopen
  obtain ⟨hkeeps, hzero⟩ := hbacked.getPage hget
  split at hopen
  · cases hopen
    exact ⟨(hkeeps.setPage hzero _).backed, isSome_setPage _ _ _⟩
  · cases hopen
    exact ⟨hkeeps.backed, hzero⟩

end MiniDB
