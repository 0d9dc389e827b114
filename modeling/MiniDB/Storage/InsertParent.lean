import MiniDB.Storage.SplitLeaf

/-!
# A separator goes up

`insertParent` puts the separator of a child that was split into the parent.  When the parent is
full it is split as well, and its own parent takes the next separator.

* `SepFits`: what the split of a child hands its parent.
* `insertParent_room`: the parent has room.
* `Calls`: the calls of `split_internal_node`, one after the other.
* `splitInternalStep_full`: the parent is split and is not the root.
* `insertParent_root`: the parent is the root and is split.
* `insertParent_wiped`, `insertParent_root_full`, `insertParent_root_one`: there are no pages for
  it.
-/

namespace MiniDB

open BPlusTree Pager

/-- The child at position `i` was split: the separator fits in between the keys on both sides. -/
structure SepFits (seps : List Int64) (children : List ℕ) (i : ℕ) (sep : Int64) (child : ℕ) :
    Prop where
  le : i ≤ seps.length
  child : children[i]? = some child
  ascending : (seps.take i ++ sep :: seps.drop i).Pairwise (· < ·)

variable {s : Pager} {seps : List Int64} {children : List ℕ} {i n left right fuel : ℕ}
  {sep : Int64} {page : Page}

theorem SepFits.find (h : SepFits seps children i sep left) (hp : InternalPage page seps children) :
    internalNodeFind page sep = i := by
  have hsub : seps.Sublist (seps.take i ++ sep :: seps.drop i) := by
    conv_lhs => rw [← List.take_append_drop i seps]
    exact List.Sublist.append_left (List.sublist_cons_self _ _) _
  obtain ⟨-, hright, hleft⟩ := List.pairwise_append.mp h.ascending
  refine internalNodeFind_eq ?_ ?_ (fun k hk => ?_) fun k hk => ?_
  · rw [hp.keys]
    exact h.ascending.sublist hsub
  · rw [hp.length_seps]
    exact h.le
  · rw [hp.keys] at hk
    exact hleft k hk sep List.mem_cons_self
  · rw [hp.keys] at hk
    exact ((List.pairwise_cons.mp hright).1 k hk).le

/-- **A parent with room** takes the separator and the new child. -/
theorem insertParent_room (hs : s.Sound) (hfit : SepFits seps children i sep left)
    (hp : InternalPage (s.page n) seps children) (hn : n < s.numPages)
    (hroom : seps.length < internalNodeMaxKeys) (hleft : left < s.numPages)
    (hright : right < s.numPages) :
    ∃ s', insertParent fuel s n sep left right = .ok (.commandSuccess, s') ∧
      s'.numPages = s.numPages ∧ Evolves s s' {n} ∅ ∧
      InternalPage (s'.page n) (seps.take i ++ sep :: seps.drop i)
        (children.take i ++ left :: right :: children.drop (i + 1)) ∧
      isRoot (s'.page n) = isRoot (s.page n) ∧
      parentPointer (s'.page n) = parentPointer (s.page n) := by
  have hfits : ∀ q < s.numPages, Fits q := fun q hq =>
    lt_of_lt_of_le (hq.trans_le hs.bounded) (by decide)
  have hnum := hp.length_seps
  have hcells : Fits (numCells (s.page n) + 1) := by
    rw [hnum]
    exact lt_of_le_of_lt hroom (by decide)
  have hi : i ≤ numCells (s.page n) := hnum ▸ hfit.le
  have hroom' : numCells (s.page n) < internalNodeMaxKeys := hnum ▸ hroom
  have hheader := header_internalNodeInsertCell i left sep hcells
    (hfits _ hright)
  have hinsert : internalNodeInsert s n i sep left right = (.commandSuccess,
      pagerMarkDirty (s.setPage n (internalNodeInsertCell (s.page n) i sep left right)) n) := by
    rw [internalNodeInsert, hnum, if_neg (not_le.mpr hroom)]
  have hpage : (pagerMarkDirty (s.setPage n
      (internalNodeInsertCell (s.page n) i sep left right)) n).page n =
      internalNodeInsertCell (s.page n) i sep left right := by
    rw [page_pagerMarkDirty, page_setPage, Function.update_self]
  refine ⟨pagerMarkDirty (s.setPage n (internalNodeInsertCell (s.page n) i sep left right)) n,
    by rw [insertParent, promoteInto_of_lt hroom', hfit.find hp, hinsert], rfl, ?_, ?_, ?_, ?_⟩
  · have hev : Evolves s s {n} {n} := Evolves.refl hs
    exact hev.write hn rfl
  · rw [hpage]
    refine ⟨?_, ?_, ?_⟩
    · rw [nodeType_eq, hheader]
      exact hp.type
    · rw [internalKeys_insertCell hcells (hfits _ hright) hi, hp.keys]
    · rw [internalChildren_insertCell hcells (hfits _ hleft) (hfits _ hright) hi, hp.children]
  · rw [hpage, isRoot_eq, hheader]
    rfl
  · rw [hpage, parentPointer_eq, hheader]
    rfl

/-! ## A full parent -/

variable (right) in
/-- The buffers of a full page are the lists with the separator and the new child in place. -/
theorem temp_eq (hfit : SepFits seps children i sep left)
    (hp : InternalPage page seps children) :
    tempKeys page (internalNodeFind page sep) sep = seps.take i ++ sep :: seps.drop i ∧
      tempChildren page (internalNodeFind page sep) left right =
        children.take i ++ left :: right :: children.drop (i + 1) := by
  rw [hfit.find hp, tempKeys_eq, tempChildren_eq, hp.keys, hp.children]
  exact ⟨rfl, rfl⟩

/-- A full parent is split. -/
theorem insertParent_of_ge {key : Int64} (hfull : internalNodeMaxKeys ≤ numCells (s.page n)) :
    insertParent fuel s n key left right = splitInternalNode fuel s n key left right := by
  rw [insertParent, promoteInto_of_ge hfull]

/-- What a full parent hands to its own parent. -/
theorem insertParent_of_step {s' : Pager} {parent l r : ℕ} {key p : Int64}
    (hfull : internalNodeMaxKeys ≤ numCells (s.page n))
    (hstep : splitInternalStep s n key left right = promoteInto s' parent p l r) :
    insertParent (fuel + 1) s n key left right = insertParent fuel s' parent p l r := by
  rw [insertParent_of_ge hfull, splitInternalNode, hstep]
  rfl

/-- A full parent that hands nothing on. -/
theorem insertParent_of_result {key : Int64} {o : CommandResult × Pager}
    (hfull : internalNodeMaxKeys ≤ numCells (s.page n))
    (hstep : splitInternalStep s n key left right = .inr o) :
    insertParent (fuel + 1) s n key left right = .ok o := by
  rw [insertParent_of_ge hfull, splitInternalNode, hstep]

/-- The root hands nothing on. -/
theorem splitInternalStep_root {key : Int64} (hroot : isRoot (s.page n) = 1) :
    splitInternalStep s n key left right = .inr (splitInternalRoot s n
      (tempKeys (s.page n) (internalNodeFind (s.page n) key) key)
      (tempChildren (s.page n) (internalNodeFind (s.page n) key) left right)) :=
  if_pos hroot

/-- Another page is split in halves, and its parent is next. -/
theorem splitInternalStep_halves {key : Int64} {keys : List Int64} {children' : List ℕ} {s' : Pager}
    (hroot : ¬ isRoot (s.page n) = 1)
    (hkeys : keys = tempKeys (s.page n) (internalNodeFind (s.page n) key) key)
    (hchildren : children' =
      tempChildren (s.page n) (internalNodeFind (s.page n) key) left right)
    {o : Option ℕ} (hsplit : splitInternalHalves s n keys children' = (o, s')) :
    splitInternalStep s n key left right = match o with
      | none => .inr (.failure, s')
      | some newPage => promoteInto s' (parentPointer (s'.page n))
        (keys.getD (internalNodeMaxKeys / 2) 0) n newPage := by
  unfold splitInternalStep
  simp only [if_neg hroot, ← hkeys, ← hchildren, hsplit]
  cases o <;> rfl

/-! ## The calls one after the other -/

/-- The calls of `split_internal_node` that are still to come: the next one, and those it makes in
turn. -/
inductive Calls : SplitCall ⊕ (CommandResult × Pager) → SplitCall → Prop
  | here (c : SplitCall) : Calls (.inl c) c
  | next {c c' : SplitCall} : Calls (splitInternalStep c.pager c.page c.key c.left c.right) c' →
      Calls (.inl c) c'

theorem not_calls_result (o : CommandResult × Pager) (c : SplitCall) : ¬ Calls (.inr o) c := by
  rintro ⟨⟩

/-- A parent is called for when it is full, and then it is the next one. -/
theorem calls_promoteInto {key : Int64} {c : SplitCall}
    (h : Calls (promoteInto s n key left right) c) :
    internalNodeMaxKeys ≤ numCells (s.page n) ∧
      (c = ⟨s, n, key, left, right⟩ ∨ Calls (splitInternalStep s n key left right) c) := by
  rcases Nat.lt_or_ge (numCells (s.page n)) internalNodeMaxKeys with hroom | hfull
  · rw [promoteInto_of_lt hroom] at h
    exact absurd h (not_calls_result _ c)
  · rw [promoteInto_of_ge hfull] at h
    refine ⟨hfull, ?_⟩
    cases h with
    | here => exact Or.inl rfl
    | next h => exact Or.inr h

/-- The root calls for no other page. -/
theorem calls_root {key : Int64} {c : SplitCall} (hroot : isRoot (s.page n) = 1)
    (h : Calls (promoteInto s n key left right) c) : c = ⟨s, n, key, left, right⟩ := by
  refine (calls_promoteInto h).2.resolve_right fun hnext => ?_
  rw [splitInternalStep_root hroot] at hnext
  exact not_calls_result _ c hnext

/-! ## The two cases of a full parent -/

variable {lk rk : List Int64} {p : Int64} {lc rc : List ℕ}

/-- **A parent that is not the root** is split, and its own parent takes the key between the
halves. -/
theorem splitInternalStep_full (hfit : SepFits seps children i sep left)
    (hp : InternalPage (s.page n) seps children) (hroot : isRoot (s.page n) = 0)
    (hcut : Cut (seps.take i ++ sep :: seps.drop i)
      (children.take i ++ left :: right :: children.drop (i + 1)) lk p rk lc rc)
    (hs : s.Sound) (hroom : s.numPages < tablesMaxPages) (hn : n < s.numPages)
    (hchild : ∀ c ∈ lc ++ rc, c < s.numPages) (hnd : rc.Nodup) (hn' : n ∉ rc)
    (hparent : parentPointer (s.page n) < s.numPages) :
    ∃ s', splitInternalStep s n sep left right =
        promoteInto s' (parentPointer (s.page n)) p n s.numPages ∧
      s'.numPages = s.numPages + 1 ∧
      Evolves s s' {q | q = n ∨ q = s.numPages ∨ q ∈ rc} {q | q ∈ rc} ∧
      (s'.pageDirty n = true ∧ s'.pageDirty s.numPages = true) ∧
      (InternalPage (s'.page n) lk lc ∧ ChildOf (s'.page n) (parentPointer (s.page n))) ∧
      (InternalPage (s'.page s.numPages) rk rc ∧
        ChildOf (s'.page s.numPages) (parentPointer (s.page n))) ∧
      ∀ c ∈ rc, s'.page c = setParentPointer (s.page c) s.numPages := by
  obtain ⟨hkeys, hchildren⟩ := temp_eq right hfit hp
  have hnotroot : ¬ isRoot (s.page n) = 1 := by
    rw [hroot]
    decide
  obtain ⟨s', hsplit, hnum, hev, hdirty, hl, hr, hset⟩ := splitInternalHalves_eq hcut hs hroom hn
    (by rw [hcut.children]; exact hchild) hnd hn' hparent
  refine ⟨s', ?_, hnum, hev, hdirty, hl, hr, hset⟩
  obtain ⟨-, -, hpromoted, -⟩ := hcut.lists
  rw [splitInternalStep_halves hnotroot hkeys.symm hchildren.symm hsplit]
  simp only [hpromoted, hl.2.parent]

/-- **A full root** is split under itself. -/
theorem insertParent_root (hfit : SepFits seps children i sep left)
    (hp : InternalPage (s.page n) seps children) (hfull : internalNodeMaxKeys ≤ seps.length)
    (hroot : isRoot (s.page n) = 1)
    (hcut : Cut (seps.take i ++ sep :: seps.drop i)
      (children.take i ++ left :: right :: children.drop (i + 1)) lk p rk lc rc)
    (hs : s.Sound) (hroom : s.numPages + 2 ≤ tablesMaxPages) (hn : n < s.numPages)
    (hchild : ∀ c ∈ lc ++ rc, c < s.numPages) (hnd : (lc ++ rc).Nodup) (hn' : n ∉ lc ++ rc) :
    ∃ s', insertParent (fuel + 1) s n sep left right = .ok (.commandSuccess, s') ∧
      s'.numPages = s.numPages + 2 ∧
      Evolves s s' {q | q = n ∨ s.numPages ≤ q ∨ q ∈ lc ++ rc} {q | q ∈ lc ++ rc} ∧
      (InternalPage (s'.page n) [p] [s.numPages, s.numPages + 1] ∧ isRoot (s'.page n) = 1) ∧
      (InternalPage (s'.page s.numPages) lk lc ∧ ChildOf (s'.page s.numPages) n) ∧
      (InternalPage (s'.page (s.numPages + 1)) rk rc ∧ ChildOf (s'.page (s.numPages + 1)) n) ∧
      (∀ c ∈ lc, s'.page c = setParentPointer (s.page c) s.numPages) ∧
      ∀ c ∈ rc, s'.page c = setParentPointer (s.page c) (s.numPages + 1) := by
  obtain ⟨hkeys, hchildren⟩ := temp_eq right hfit hp
  rw [← hcut.children] at hchild hnd hn'
  obtain ⟨s', hsplit, hnum, hev, hrest⟩ := splitInternalRoot_eq hcut hs hroom hn hchild hnd hn'
  rw [hcut.children] at hev
  refine ⟨s', ?_, hnum, hev, hrest⟩
  rw [← hkeys, ← hchildren] at hsplit
  exact insertParent_of_result (hp.length_seps ▸ hfull)
    ((splitInternalStep_root hroot).trans (congrArg Sum.inr hsplit))

/-- A full parent that is not the root is wiped before it turns out that no page is left. -/
theorem insertParent_wiped (hp : InternalPage (s.page n) seps children)
    (hfull : internalNodeMaxKeys ≤ seps.length) (hroot : isRoot (s.page n) = 0)
    (hnone : s.numPages = tablesMaxPages) :
    insertParent (fuel + 1) s n sep left right = .ok (.failure, s.setPage n
      ((s.page n).zero internalNodeHeaderSize internalNodeSpaceForCells)) := by
  have hnotroot : ¬ isRoot (s.page n) = 1 := by
    rw [hroot]
    decide
  have hget : ∀ p : Page, pagerGetPage (s.setPage n p) s.numPages = none := fun p =>
    pagerGetPage_none hnone.ge
  refine insertParent_of_result (hp.length_seps ▸ hfull) ?_
  simp only [splitInternalStep, if_neg hnotroot, splitInternalHalves, numPages_setPage, hget]

/-- A full root cannot be split when no page is left: the separator is lost. -/
theorem insertParent_root_full (hp : InternalPage (s.page n) seps children)
    (hfull : internalNodeMaxKeys ≤ seps.length) (hroot : isRoot (s.page n) = 1)
    (hnone : s.numPages = tablesMaxPages) :
    insertParent (fuel + 1) s n sep left right = .ok (.failure, s) := by
  have hget : pagerGetPage s s.numPages = none := pagerGetPage_none hnone.ge
  refine insertParent_of_result (hp.length_seps ▸ hfull) ?_
  simp only [splitInternalStep_root hroot, splitInternalRoot, hget]

/-- Nor can it when one page is left, which is taken. -/
theorem insertParent_root_one (fuel right : ℕ)
    (hp : InternalPage (s.page n) seps children) (hfull : internalNodeMaxKeys ≤ seps.length)
    (hroot : isRoot (s.page n) = 1) (hs : s.Sound) (hone : s.numPages + 1 = tablesMaxPages) :
    ∃ s', insertParent (fuel + 1) s n sep left right = .ok (.failure, s') ∧ SameView s s' := by
  obtain ⟨s', hget, hview, hnum, -⟩ := pagerGetPage_fresh hs (by omega)
  have hnone : pagerGetPage s' s'.numPages = none := pagerGetPage_none (by omega)
  refine ⟨s', ?_, hview⟩
  refine insertParent_of_result (hp.length_seps ▸ hfull) ?_
  simp only [splitInternalStep_root hroot, splitInternalRoot, hget, hnone]

end MiniDB
