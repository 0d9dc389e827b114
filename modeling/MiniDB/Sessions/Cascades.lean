import MiniDB.Sessions.TableRuns
import MiniDB.Sessions.Rising

/-!
# Parent pointers in the course of a split

An `INSERT` into a full leaf cuts the leaf, and then one full node after the other.

* `ParentsNamed`: every child names its parent.
* `InsertCalls`: the calls of `split_internal_node` in an `INSERT`.
* `HandedUp.parentsNamed`: between two cuts every child names its parent as well, and the half that
  no page names yet hangs under the node that is cut next.
* `tableRun_parents`: **every child names its parent**, in the states between the statements and at
  every call of the split functions.
-/

namespace MiniDB

open BPlusTree Pager

variable {s s₀ : Pager} {table : Table} {n rowSize : ℕ} {σ : Schema} {key : Int64} {c : SplitCall}

/-- Every child of a page that can be reached from the root names this page as its parent. -/
def ParentsNamed (s : Pager) (root : ℕ) : Prop :=
  ∀ p, OnTree s root p → nodeType (s.page p) = nodeInternal →
    ∀ c ∈ internalChildren (s.page p), parentPointer (s.page c) = p

/-- What holds when `split_internal_node` is called: every child names its parent, in the tree and
in the new half, which is not in the tree yet; and both halves name the node that is cut. -/
structure ParentsNamedAt (c : SplitCall) (root : ℕ) : Prop where
  tree : ParentsNamed c.pager root
  half : ParentsNamed c.pager c.right
  left : parentPointer (c.pager.page c.left) = c.page
  right : parentPointer (c.pager.page c.right) = c.page

/-- The calls of `split_internal_node` in an `INSERT`: it gets as far as splitting a leaf, which
calls `split_internal_node` for its parent, and so on. -/
def InsertCalls (s : Pager) (table : Table) (n : ℕ) (values : List Expr) (c : SplitCall) : Prop :=
  ∃ leaf key s₁ s₂ o, SplitsAt s table n values leaf ∧
    values[catalogNodePrimaryKeyColumn (s.page 0) n]? = some (.literalInt key) ∧
    pagerGetPage s table.rootPageNum = some s₁ ∧
    leafNodeForKey key walkFuel s₁ table.rootPageNum = .ok (some leaf, s₂) ∧
    splitLeafStep s₂ table leaf key (insertedRow values) (catalogNodeRowSize (s.page 0) n) =
      .ok o ∧ Calls o c

/-! ## Stored trees -/

theorem Stored.parentsNamed {next h : ℕ} {t : PageTree h} (hst : Stored s.page rowSize t next) :
    ParentsNamed s t.page :=
  fun p hp htype => hst.parents p (hp.mem_labels hst) htype

/-- Of the pages of a subtree, only its root hangs under a page outside. -/
theorem Stored.eq_page_of_parent {next h q : ℕ} {t : PageTree h}
    (hst : Stored s.page rowSize t next) (hq : q ∈ t.labels)
    (hout : parentPointer (s.page q) ∉ t.labels) : q = t.page := by
  rw [Tree.labels_eq] at hq
  rcases Multiset.mem_add.mp hq with hq | hq
  · exact Multiset.mem_singleton.mp hq
  · obtain ⟨parent, hmem, hchild⟩ := hst.childOf_below q hq
    rw [← hchild.parent] at hmem
    exact absurd hmem hout

/-! ## Between two cuts -/

section HandedUp

variable {d h next e : ℕ} {t : PageTree h} {old l r : PageTree d}

/-- A page of the old tree outside of the child that was cut is as it was, and so are those of its
children that are outside. -/
theorem HandedUp.child_cases (ht : Represents s rowSize ⟨h, t⟩)
    (hold : Stored s.page rowSize old e) (hc : HandedUp s rowSize old l r next c) {p q : ℕ}
    (hp : p ∈ t.labels) (hpold : p ∉ old.labels)
    (htype : nodeType (c.pager.page p) = nodeInternal)
    (hq : q ∈ internalChildren (c.pager.page p)) :
    parentPointer (s.page q) = p ∧
      (q ∈ t.labels ∧ q ∉ old.labels ∧ c.pager.page q = s.page q ∨ q = old.page) := by
  rw [hc.kept p (ht.good.pages p hp) hpold] at htype hq
  have hparent := ht.stored.parents p hp htype q hq
  have hmem := ht.stored.mem_labels_of_child hp htype hq
  refine ⟨hparent, ?_⟩
  by_cases hqold : q ∈ old.labels
  · refine Or.inr (hold.eq_page_of_parent hqold ?_)
    rwa [hparent]
  · exact Or.inl ⟨hmem, hqold, hc.kept q (ht.good.pages q hmem) hqold⟩

/-- The tree at the call: the old one, with the left half in place of the child. -/
theorem HandedUp.onTree_cases (ht : Represents s rowSize ⟨h, t⟩)
    (hbelow : ∀ q ∈ old.labels, q ∈ t.below) (hold : Stored s.page rowSize old e)
    (hc : HandedUp s rowSize old l r next c) {q : ℕ} (hq : OnTree c.pager t.page q) :
    q ∈ t.labels ∧ q ∉ old.labels ∨ q ∈ l.labels := by
  obtain ⟨_, hl, -⟩ := hc.hangs.exists_of_mem (c := l) List.mem_cons_self
  induction hq with
  | root =>
    exact Or.inl ⟨Tree.page_mem_labels t, fun hq =>
      Tree.page_notMem_below ht.good.nodup (hbelow _ hq)⟩
  | child _ htype hq ih =>
    rcases ih with ⟨hp, hpold⟩ | hp
    · rcases (hc.child_cases ht hold hp hpold htype hq).2 with ⟨hmem, hqold, -⟩ | rfl
      · exact Or.inl ⟨hmem, hqold⟩
      · exact Or.inr (hc.page ▸ Tree.page_mem_labels l)
    · exact Or.inr (hl.mem_labels_of_child hp htype hq)

/-- **Every child names its parent when a node is about to be cut.** -/
theorem HandedUp.parentsNamed (ht : Represents s rowSize ⟨h, t⟩)
    (hbelow : ∀ q ∈ old.labels, q ∈ t.below) (hold : Stored s.page rowSize old e)
    (hchild : ChildOf (s.page old.page) c.page) (hc : HandedUp s rowSize old l r next c) :
    ParentsNamedAt c t.page := by
  obtain ⟨_, hl, hleft⟩ := hc.hangs.exists_of_mem (c := l) List.mem_cons_self
  obtain ⟨_, hr, hright⟩ :=
    hc.hangs.exists_of_mem (c := r) (List.mem_cons_of_mem _ List.mem_cons_self)
  refine ⟨fun p hp htype q hq => ?_, ?_, ?_, ?_⟩
  · rcases hc.onTree_cases ht hbelow hold hp with ⟨hmem, hpold⟩ | hmem
    · obtain ⟨hparent, ⟨-, -, hkept⟩ | rfl⟩ := hc.child_cases ht hold hmem hpold htype hq
      · rw [hkept]
        exact hparent
      · rw [← hc.page, hleft.parent, ← hchild.parent]
        exact hparent
    · exact hl.parents p hmem htype q hq
  · rw [hc.right]
    exact hr.parentsNamed
  · rw [hc.left]
    exact hleft.parent
  · rw [hc.right]
    exact hright.parent

end HandedUp

/-- The node of a call is in the tree, above the child that was cut. -/
theorem CallIn.exists_handedUp : {h : ℕ} → {t : PageTree h} → {e : ℕ} →
    Stored s.page rowSize t e → CallIn s rowSize key t c →
    ∃ (d : ℕ) (old l r : PageTree d) (e' next : ℕ), (∀ q ∈ old.labels, q ∈ t.below) ∧
      Stored s.page rowSize old e' ∧ ChildOf (s.page old.page) c.page ∧
      HandedUp s rowSize old l r next c
  | 0, _, _, _, hc => hc.elim
  | h + 1, n, _, hst, hc => by
    have hmem := Kids.pick_mem_children key n.kids
    obtain ⟨e', hpick, hchild⟩ := hst.2.exists_of_mem hmem
    rcases hc with hc | ⟨hpage, l, r, next, hc⟩
    · obtain ⟨d, old, l, r, e, next, hbelow, hold, hchild, hc⟩ := hc.exists_handedUp hpick
      refine ⟨d, old, l, r, e, next, fun q hq => ?_, hold, hchild, hc⟩
      exact Multiset.mem_of_le (Tree.labels_le_below hmem)
        (Multiset.mem_of_le (Tree.below_le_labels _) (hbelow q hq))
    · rw [← hpage] at hchild
      exact ⟨h, _, l, r, e', next,
        fun q hq => Multiset.mem_of_le (Tree.labels_le_below hmem) hq, hpick, hchild, hc⟩

/-! ## The calls of an `INSERT` -/

/-- A call is what is left to do of the first one. -/
theorem Calls.run {c₀ : SplitCall} (h : Calls (.inl c₀) c) (fuel : ℕ) : ∃ fuel',
    splitInternalNode fuel c₀.pager c₀.page c₀.key c₀.left c₀.right =
      splitInternalNode fuel' c.pager c.page c.key c.left c.right := by
  generalize ho : (Sum.inl c₀ : SplitCall ⊕ (CommandResult × Pager)) = o at h
  induction h generalizing c₀ fuel with
  | here c =>
    cases ho
    exact ⟨fuel, rfl⟩
  | @next c c' hnext ih =>
    cases ho
    cases fuel with
    | zero => exact ⟨0, rfl⟩
    | succ fuel =>
      rw [splitInternalNode]
      cases hstep : splitInternalStep c.pager c.page c.key c.left c.right with
      | inl c₁ => exact ih fuel hstep.symm
      | inr o =>
        rw [hstep] at hnext
        exact absurd hnext (not_calls_result o c')

/-- **Every call of an `INSERT`** is what is left of the statement, and every child names its parent
then. -/
theorem Holds.insertCalls {t : PageTreeAny} {values : List Expr} (h : Holds s table n σ t)
    (hroom : HasRoom s table n values) (hc : InsertCalls s table n values c) :
    (∃ fuel, insertCommand s table table.tableName values =
      (splitInternalNode fuel c.pager c.page c.key c.left c.right).map (orPrint cannotInsert)) ∧
      ParentsNamedAt c table.rootPageNum := by
  obtain ⟨leaf, key, s₁, s₂, o, hat, hkey, hget, hdescent, hstep, hcalls⟩ := hc
  obtain ⟨key', hm, hkey', hnew, rfl⟩ := hat.matches h
  rw [h.describes.primaryKey] at hkey
  obtain rfl : key = key' := by
    rw [hkey] at hkey'
    cases hkey'
    rfl
  rw [h.describes.rowSize] at hstep
  -- the pages are only read on the way to the leaf
  obtain ⟨s₁', hget', hf₁⟩ := pagerGetPage_of_lt h.sound h.root_lt
  have hs₁ := hget'.symm.trans hget
  cases hs₁
  have h₁ := h.fetched hf₁
  obtain ⟨s₂', hdescent', hf₂⟩ := h₁.descent key
  have hs₂ := hdescent'.symm.trans hdescent
  cases hs₂
  have h₂ := h₁.fetched hf₂
  have hf := hf₁.trans hf₂
  obtain ⟨e, hleaf⟩ := h₂.leafPage key
  have hfull : leafNodeMaxCells σ.rowSize ≤ (t.2.leafFor key).cells.length := by
    have hle := hat.full
    rwa [h.describes.rowSize, ← hf.page, hleaf.length_cells] at hle
  constructor
  · have hnot : ¬ FoundAt (s₂.page (t.2.leafFor key).page) key σ.rowSize := by
      rw [h₂.foundAt]
      rintro ⟨a, ha, heq⟩
      exact hnew a ha heq
    have hrun : insertCommand s table table.tableName values =
        (splitLeafNode s₂ table (t.2.leafFor key).page key (insertedRow values) σ.rowSize).map
          (orPrint cannotInsert) := by
      rw [insertCommand_descended h hm hkey hget hdescent, if_neg hnot]
      rcases rowValues_eq values with ⟨-, heq⟩ | ⟨hno, -⟩
      · rw [heq]
        exact congrArg (Except.map (orPrint cannotInsert))
          (insertRow_full table key (insertedRow values) hleaf hfull)
      · exact absurd hat.texts hno
    cases o with
    | inr o => exact absurd hcalls (not_calls_result o c)
    | inl c₀ =>
      obtain ⟨fuel, hcont⟩ := hcalls.run walkFuel
      refine ⟨fuel, ?_⟩
      rw [hrun, splitLeafNode, hstep, ← hcont]
      rfl
  · have hle := hroom _ hat
    rw [h.describes.rowSize, h.represents.pagesNeeded_eq key (insertedRow values) h.sound] at hle
    have hle' : (treeInserted s₂ σ.types key (insertedRow values) t).2 ≤ tablesMaxPages := by
      rwa [treeInserted, hf.numPages]
    obtain ⟨s', hin⟩ := insertRow_represents h₂.reads h₂.sound σ.one_le_maxCells
      hm.length_rowBytes h₂.represents hnew hle'
    obtain ⟨o', hstep', hcalls'⟩ := hin.calls
    have ho := (insertRowStep_full table key (insertedRow values) hleaf hfull).symm.trans hstep'
    rw [hstep] at ho
    cases ho
    obtain ⟨d, old, l, r, e', next, hbelow, hold, hchild, hc⟩ :=
      (hcalls' c hcalls).exists_handedUp h₂.represents.stored
    rw [← h.root]
    exact hc.parentsNamed h₂.represents hbelow hold hchild

/-! ## What holds in the states reached -/

/-- **Every child names its parent**, in every state that is reached, and in every state in which
an `INSERT` has a node split: right after the split of the leaf, and after every step of the
cascade. -/
theorem tableRun_parents (h₀ : FreshTable s₀ table n σ) (h : TableRun table n s₀ s) :
    ParentsNamed s table.rootPageNum ∧
      ∀ values, HasRoom s table n values → ∀ c, InsertCalls s table n values c →
        (∃ fuel, insertCommand s table table.tableName values =
          (splitInternalNode fuel c.pager c.page c.key c.left c.right).map
            (orPrint cannotInsert)) ∧ ParentsNamedAt c table.rootPageNum := by
  obtain ⟨⟨t, ht⟩, -⟩ := h.holds h₀
  refine ⟨?_, fun values hroom c hc => ht.insertCalls hroom hc⟩
  rw [← ht.root]
  exact ht.represents.stored.parentsNamed

/-! ## A full root -/

/-- The rows `1` to `m + 3` are inserted one after the other. -/
theorem exists_ascendingRun {m : ℕ} (hm : m + 1 ≤ internalNodeMaxKeys) : ∃ s₀ table s,
    FreshTable s₀ table 0 (schemaOf notes validNotes) ∧ TableRun table 0 s₀ s ∧
      Holds s table 0 (schemaOf notes validNotes) (ascending m) ∧ s.numPages = m + 4 := by
  induction m with
  | zero =>
    obtain ⟨s₀, table, s, h₀, -, hrun, ht, hnum, -⟩ := exists_threeRun
    exact ⟨s₀, table, s, h₀, hrun, ht, hnum⟩
  | succ m ih =>
    obtain ⟨s₀, table, s, h₀, hrun, ht, hnum⟩ := ih (by omega)
    have hmax := internalNodeMaxKeys_eq
    have hpages : tablesMaxPages = 20000 := rfl
    obtain ⟨s', hrun', ht', hnum', -⟩ := hrun.insert ht (matches_notesRow (rowKey (m + 4)))
      (textsFit_notesRow _) rfl (key_ne_ascending (by omega)) (ascending (m + 1)) (m + 5)
      (by unfold treeInserted; rw [hnum]; exact afterInsert_ascending hm) (by omega)
    exact ⟨s₀, table, s', h₀, hrun', ht', hnum'⟩

/-- The next row has a full root split. -/
theorem exists_insertCall {m : ℕ} (hm : m + 1 = internalNodeMaxKeys)
    (h : Holds s table 0 (schemaOf notes validNotes) (ascending m)) (hnum : s.numPages = m + 4) :
    HasRoom s table 0 (notesRow (rowKey (m + 4))) ∧
      ∃ c, InsertCalls s table 0 (notesRow (rowKey (m + 4))) c ∧ c.page = table.rootPageNum := by
  have hmax := internalNodeMaxKeys_eq
  have hpages : tablesMaxPages = 20000 := rfl
  have hk : m + 4 < 1000 := by omega
  have hkey := key_ne_ascending hk
  have hmatches := matches_notesRow (rowKey (m + 4))
  have hcells : ((ascending m).2.leafFor (rowKey (m + 4))).cells.length =
      leafNodeMaxCells (schemaOf notes validNotes).rowSize := by
    rw [leafFor_ascending hk]
    exact leafNodeMaxCells_notes.symm
  have hat := h.splitsAt hmatches rfl hkey (textsFit_notesRow _) hcells.ge
  obtain ⟨l, p, r, hinserted, -⟩ := afterInsert_full hm
  have hvalue : (notesRow (rowKey (m + 4)))[(schemaOf notes validNotes).primaryKey]? =
      some (.literalInt (rowKey (m + 4))) := rfl
  refine ⟨h.hasRoom hvalue ?_, ?_⟩
  · have hpages' : (treeInserted s (schemaOf notes validNotes).types (rowKey (m + 4))
        (insertedRow (notesRow (rowKey (m + 4)))) (ascending m)).2 = m + 7 := by
      unfold treeInserted
      rw [hnum]
      exact congrArg Prod.snd hinserted
    omega
  · obtain ⟨s₁, hget, hf₁⟩ := pagerGetPage_of_lt h.sound h.root_lt
    obtain ⟨s₂, hdescent, hf₂⟩ := (h.fetched hf₁).descent (rowKey (m + 4))
    have h₂ := (h.fetched hf₁).fetched hf₂
    have hf := hf₁.trans hf₂
    have ht : Represents s₂ (rowWidth (schemaOf notes validNotes).types)
        ⟨0 + (0 + 1), (ascending m).2⟩ := h₂.represents
    obtain ⟨lo, hi, hplace, hlo, hhi⟩ := underFull_ascending hm ht
    rw [leafFor_ascending hk] at hkey
    have hnum₂ : s₂.numPages = m + 4 := hf.numPages.trans hnum
    obtain ⟨s', left, right, sep, hstep, -⟩ := splitLeafStep_justSplit h₂.sound h₂.reads
      (schemaOf notes validNotes).one_le_maxCells ht hplace hlo hhi leafNodeMaxCells_notes.symm hkey
      hmatches.length_rowBytes (by omega)
    rw [leafFor_ascending hk] at hdescent hat
    refine ⟨⟨s', (ascending m).2.page, sep, left.page, right.page⟩,
      ⟨_, rowKey (m + 4), s₁, s₂, _, hat, ?_, hget, hdescent, ?_, .here _⟩, h.root⟩
    · rw [h.describes.primaryKey]
      rfl
    · rw [h.describes.rowSize]
      exact hstep

/-- The row `343` comes to a full root: while the root is about to be split, its first child still
names it. -/
theorem tableRun_parents_notes : ∃ s₀ table s c,
    FreshTable s₀ table 0 (schemaOf notes validNotes) ∧ TableRun table 0 s₀ s ∧
      numCells (s.page table.rootPageNum) = internalNodeMaxKeys ∧
      3 ∈ internalChildren (s.page table.rootPageNum) ∧
      parentPointer (s.page 3) = table.rootPageNum ∧
      InsertCalls s table 0 (notesRow (rowKey 343)) c ∧ c.page = table.rootPageNum ∧
      (∃ fuel, insertCommand s table table.tableName (notesRow (rowKey 343)) =
        (splitInternalNode fuel c.pager c.page c.key c.left c.right).map (orPrint cannotInsert)) ∧
      ParentsNamedAt c table.rootPageNum := by
  obtain ⟨m, hm⟩ : ∃ m, m = 339 := ⟨_, rfl⟩
  have hmax := internalNodeMaxKeys_eq
  obtain ⟨s₀, table, s, h₀, hrun, ht, hnum⟩ := exists_ascendingRun (m := m) (by omega)
  obtain ⟨hroom, c, hc, hpage⟩ := exists_insertCall (by omega) ht hnum
  have hkey : m + 4 = 343 := by omega
  rw [hkey] at hroom hc
  obtain ⟨hparents, hcalls⟩ := tableRun_parents h₀ hrun
  have hroot : InternalPage (s.page (ascending m).2.page) (ladder 1 (m + 1)).seps
      ((ladder 1 (m + 1)).children.map Tree.page) := ht.represents.stored.1
  rw [ht.root] at hroot
  have hthree : 3 ∈ internalChildren (s.page table.rootPageNum) := by
    rw [hroot.children]
    exact List.mem_cons_self
  obtain ⟨hleft, hat⟩ := hcalls _ hroom c hc
  refine ⟨s₀, table, s, c, h₀, hrun, ?_, hthree, hparents _ OnTree.root hroot.type 3 hthree, hc,
    hpage, hleft, hat⟩
  rw [hroot.length_seps, length_seps_ladder]
  omega

end MiniDB
