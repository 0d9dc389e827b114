import MiniDB.Sessions.Closing
import MiniDB.Sessions.Failing
import MiniDB.Storage.Marks

/-!
# What a split root leaves out of the file

The rows `1` to `342` fill the root.  In the next session every page is clean, and the row `343`
splits the root: the leaf with the first row is hung on the left half, which writes its page but
does not mark it.

* `OneTable.insert_full`: the row that splits the root in the second session.
* `not_persists_moved`: **after opening the file again the leaf names its former parent**.
-/

namespace MiniDB

open BPlusTree Pager

variable {s s' : Pager}

/-- The last leaf of the tree of the rows `1` to `m + 3`. -/
theorem page_pick_ascending {m : ℕ} (hpos : 0 < m) (hm : m + 4 < 1000) :
    ((ladder 1 (m + 1)).pick (rowKey (m + 4))).page = m + 3 := by
  rw [pick_ladder (i := 1) hm (by omega)]
  obtain ⟨k, rfl⟩ : ∃ k, m = k + 1 := ⟨m - 1, by omega⟩
  have heq : 1 + (k + 1 + 1) = k + 3 := by omega
  rw [heq]
  rfl

/-- The pages of the tree of the rows `1` to `m + 3`. -/
theorem page_three_mem (m : ℕ) : 3 ∈ (ascending m).2.labels := by
  have hmem := Kids.head_mem_children (ladder 1 (m + 1))
  exact Multiset.mem_of_le (Tree.labels_le_of_mem (n := .node 1 (ladder 1 (m + 1))) hmem)
    (Tree.page_mem_labels _)

/-- **A row that goes into a full leaf under the root** marks the leaf, the root and new pages. -/
theorem Holds.insert_marks {table : Table} {n root : ℕ} {σ : Schema} {values : List Expr}
    {key : Int64} {kids : Kids Int64 (PageTree 0)} {o : Outcome}
    (h : Holds s table n σ ⟨1, .node root kids⟩) (hm : Matches σ values) (hfit : TextsFit values)
    (hkey : values[σ.primaryKey]? = some (.literalInt key))
    (hnew : ∀ a ∈ (kids.pick key).cells, a.1 ≠ key)
    (hfull : leafNodeMaxCells σ.rowSize ≤ (kids.pick key).cells.length)
    (hroom : s.numPages < tablesMaxPages)
    (hrun : insertCommand s table table.tableName values = .ok (o, s')) :
    MarksOnly s s' {q | q = (kids.pick key).page ∨ q = root ∨ s.numPages ≤ q} := by
  obtain ⟨s₁, hf, -, -, hrun₁⟩ := insertCommand_matches h hm hkey
  rw [hrun₁ hnew hfit] at hrun
  obtain ⟨r, hinsert⟩ := ok_of_orPrint hrun
  have h₁ := h.fetched hf
  have hst : Stored s₁.page σ.rowSize (.node root kids : PageTree 1) 0 := h₁.represents.stored
  have hgood := h₁.represents.good
  obtain ⟨e, hleaf, hchild⟩ := hst.2.exists_of_mem (Kids.pick_mem_children key kids)
  have hsized := hgood.sized.2.2 _ (Kids.pick_mem_children key kids)
  have hlabel := Tree.labels_le_of_mem (n := (.node root kids : PageTree 1))
    (Kids.pick_mem_children key kids)
  have hlt := hgood.pages _ (Multiset.mem_of_le hlabel (Tree.page_mem_labels _))
  have hmarks := insertRow_marks h₁.sound h₁.reads hleaf hchild (le_antisymm hsized hfull)
    hgood.ordered.leafFor hnew hm.length_rowBytes (by rw [hf.numPages]; exact hroom) hlt
    hgood.page_lt h₁.represents.root hinsert
  rw [MarksOnly, hf.pageDirty, hf.numPages] at hmarks
  exact hmarks

/-- **The row that splits the root in the second session** hangs the leaf on page 3 on a new page
and leaves it clean. -/
theorem OneTable.insert_full {m : ℕ} (hm : m + 1 = internalNodeMaxKeys)
    (h : OneTable s notesName notes validNotes (ascending m)) (hnum : s.numPages = m + 4)
    (hclean : ∀ q, s.pageDirty q = false) :
    (AstNode.insert notesName (notesRow (rowKey (m + 4)))).CanFinish s ∧
      ∃ s', CarriesOut s (.insert notesName (notesRow (rowKey (m + 4)))) s' ∧
        s'.disk = s.disk ∧ s'.fileLength = s.fileLength ∧ s'.Sound ∧
        0 < catalogNodeNumTables (s'.page 0) ∧
        OnTree s' (catalogNodeRootPage (s'.page 0) 0) 3 ∧ s'.pageDirty 3 = false ∧
        parentPointer (s.page 3) = 1 ∧ parentPointer (s'.page 3) = m + 5 := by
  have hmax := internalNodeMaxKeys_eq
  have hk : m + 4 < 1000 := by omega
  have hholds := h.holds
  have hm₁ : Matches (schemaOf notes validNotes) (notesRow (rowKey (m + 4))) := matches_notesRow _
  have hfit := textsFit_notesRow (rowKey (m + 4))
  have hkey : (notesRow (rowKey (m + 4)))[primaryIndex notes]? =
    some (.literalInt (rowKey (m + 4))) := rfl
  have hnew := key_ne_ascending hk
  obtain ⟨l, p, r, hins, -, hhead⟩ := afterInsert_full hm
  have hroom : (afterInsert notes s.numPages (rowKey (m + 4)) (notesRow (rowKey (m + 4)))
      (ascending m)).2 ≤ tablesMaxPages := by
    rw [hnum, hins]
    show m + 7 ≤ 20000
    omega
  obtain ⟨hcan, s', hexec, h', -⟩ := h.insert hm₁ hfit hkey hnew hroom
  rw [hnum, hins] at h'
  -- the command behind the statement
  obtain ⟨s'', hrun, -, hev, -⟩ := insertCommand_inserted hholds hm₁ hfit hkey hnew hroom
  rw [execute_insert h.find] at hexec
  obtain rfl : s'' = s' := by
    have heq := hrun.symm.trans hexec
    cases heq
    rfl
  refine ⟨hcan, s'', ⟨trivial, _, (execute_insert h.find _).trans hexec⟩, hev.disk, hev.fileLength,
    hev.sound, ?_, ?_, ?_, ?_, ?_⟩
  · rw [h'.database.count]
    exact Nat.zero_lt_one
  · -- the leaf is in the tree
    have hroot : catalogNodeRootPage (s''.page 0) 0 = 1 := h'.database.root 0 _ rfl
    rw [hroot]
    refine h'.holds.represents.stored.onTree (q := 3) ?_
    have hhalf : 3 ∈ (BPlusTree.Tree.node (m + 5) l : PageTree 1).labels := by
      refine Multiset.mem_of_le (Tree.labels_le_of_mem (Kids.head_mem_children l)) ?_
      rw [← hhead]
      exact Tree.page_mem_labels _
    exact Multiset.mem_of_le (Tree.labels_le_of_mem
      (n := .node 1 (.cons (.node (m + 5) l) p (.one (.node (m + 6) r)))) List.mem_cons_self) hhalf
  · -- it was not marked
    have hlen : ((ladder 1 (m + 1)).pick (rowKey (m + 4))).cells.length = 2 := by
      rw [pick_ladder (i := 1) hk (by omega)]
      rfl
    have hleaf : ((ladder 1 (m + 1)).pick (rowKey (m + 4))).page ≠ 3 := by
      rw [page_pick_ascending (by omega) hk]
      omega
    have hmarks := Holds.insert_marks hholds hm₁ hfit hkey hnew
      (leafNodeMaxCells_notes.trans hlen.symm).le (by rw [hnum]; show m + 4 < 20000; omega) hrun
    rw [← Bool.not_eq_true]
    intro hdirty
    rcases hmarks 3 hdirty with hbefore | heq | heq | hge
    · rw [hclean 3] at hbefore
      cases hbefore
    · exact hleaf heq.symm
    · exact absurd heq (by decide)
    · have hge' : s.numPages ≤ 3 := hge
      omega
  · have hst : Stored s.page (schemaOf notes validNotes).rowSize (ascending m).2 0 :=
      hholds.represents.stored
    obtain ⟨e, -, hchild⟩ := hst.2.exists_of_mem (Kids.head_mem_children (ladder 1 (m + 1)))
    exact hchild.parent
  · have hst : Stored s''.page (schemaOf notes validNotes).rowSize
        (.node 1 (.cons (.node (m + 5) l) p (.one (.node (m + 6) r))) : PageTree 2) 0 :=
      h'.holds.represents.stored
    obtain ⟨e, hhalf, -⟩ := hst.2.exists_of_mem (c := .node (m + 5) l) List.mem_cons_self
    obtain ⟨e', -, hchild⟩ := hhalf.2.exists_of_mem (Kids.head_mem_children l)
    rw [← hhead]
    exact hchild.parent

/-- The rows `1` to `342`, a second session with the row `343`, and a third one: the leaf with the
first row can be reached, and names another parent than before. -/
theorem not_persists_moved : ∃ s s', ReachableAcross FinishesAcross s ∧
    openDatabase (pagerClose s) = some s' ∧ 0 < catalogNodeNumTables (s.page 0) ∧
    OnTree s (catalogNodeRootPage (s.page 0) 0) 3 ∧
    parentPointer (s'.page 3) ≠ parentPointer (s.page 3) ∧ ¬ Persists s s' := by
  obtain ⟨m, hm⟩ : ∃ m, m + 1 = internalNodeMaxKeys := ⟨339, rfl⟩
  have hmax := internalNodeMaxKeys_eq
  obtain ⟨s₁, hreach, h₁, hnum⟩ := exists_ascending hm.le
  obtain ⟨s₂, hopen, h₂, hfile, hle, hclean, hagree⟩ := h₁.reopen hreach
  -- the last leaf is the last page of the file
  have hnum₂ : s₂.numPages = m + 4 := by
    have hlt : ((ladder 1 (m + 1)).pick (rowKey (m + 4))).page < s₂.numPages := by
      refine h₂.database.page_lt (n := 0) rfl (Multiset.mem_of_le (Tree.labels_le_of_mem
        (n := .node 1 (ladder 1 (m + 1))) (Kids.pick_mem_children (rowKey (m + 4)) _)) ?_)
      exact Tree.page_mem_labels _
    rw [page_pick_ascending (by omega) (by omega)] at hlt
    omega
  obtain ⟨hcan, s₃, hstep, hdisk, hlength, hs₃, hcount, hon, hdirty, hbefore, hafter⟩ :=
    h₂.insert_full hm hnum₂ hclean
  have hok : FinishesAcross s₂ (.statement (.insert notesName (notesRow (rowKey (m + 4))))) := hcan
  have hacross := (hreach.across.reopen trivial hopen).statement hok hstep
  -- the third session
  have hfile₃ : s₃.disk.Whole := hdisk ▸ hfile
  obtain ⟨s₄, hopen₄, -, -, -, -, hpage⟩ := openDatabase_whole hfile₃.pagerClose
  have hsame : AgreeTo pageSize (s₂.page 3) (s₄.page 3) := by
    intro i hi
    rw [hpage 3 i hi, byte_pagerClose (by decide) hi, if_neg (by rw [hdirty]; decide), hdisk,
      ← load_eq h₂.database.sound.length hfile hi]
    exact ((hagree 3 (page_three_mem m)).2 i hi).symm
  have hparent : parentPointer (s₄.page 3) ≠ parentPointer (s₃.page 3) := by
    rw [AgreeTo.parentPointer hsame, hbefore, hafter]
    omega
  refine ⟨s₃, s₄, hacross, hopen₄, hcount, hon, hparent, fun hpersists => ?_⟩
  exact hparent (AgreeTo.parentPointer (hpersists.tree 0 hcount 3 hon))

end MiniDB
