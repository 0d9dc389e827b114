import MiniDB.Sessions.Inserting
import MiniDB.Sessions.Naming

/-!
# `INSERT`s that fail

An `INSERT` that is turned down touches no page of any table.  One that runs out of pages after it
has split a leaf fails as well, and leaves the halves behind.

* `KeepsTable`: the rows of a table, as they are found and as they are linked, and its tree.
* `insertCommand_failed_iff`: **a failed `INSERT` keeps all tables** unless the pages ran out half
  way.
* `OneTable.create_refused`: every `CREATE TABLE` that is refused over a column name takes a page.
-/

namespace MiniDB

open BPlusTree Pager

variable {s s' : Pager} {ts : List TableInfo} {name : List UInt8} {n : ℕ} {values : List Expr}
  {o : Outcome} {definitions : List ColumnDefinition} {hv : ValidDefinitions definitions}
  {t : PageTreeAny}

/-- The table with number `n` is as it was: its entry, the row that is found for each key, the rows
along the leaf links, and its pages hold a tree. -/
structure KeepsTable (s s' : Pager) (n : ℕ) : Prop where
  entry : SameEntry n (s.page 0) (s'.page 0)
  found : ∀ key, MiniDB.findRow s' (catalogNodeRootPage (s.page 0) n)
      (catalogNodeRowSize (s.page 0) n) key =
    MiniDB.findRow s (catalogNodeRootPage (s.page 0) n) (catalogNodeRowSize (s.page 0) n) key
  linked : MiniDB.tableCells s' (catalogNodeRootPage (s.page 0) n)
      (catalogNodeRowSize (s.page 0) n) =
    MiniDB.tableCells s (catalogNodeRootPage (s.page 0) n) (catalogNodeRowSize (s.page 0) n)
  tree : ∃ t, Represents s' (catalogNodeRowSize (s.page 0) n) t ∧
    t.2.page = catalogNodeRootPage (s.page 0) n

/-- A step outside the pages there are keeps the tables. -/
theorem Database.keepsTable (h : Database s ts) {M : Set ℕ}
    (hev : Evolves s s' {q | s.numPages ≤ q} M) (hn : n < catalogNodeNumTables (s.page 0)) :
    KeepsTable s s' n := by
  rw [h.count] at hn
  have hx : ts[n]? = some ts[n] := List.getElem?_eq_getElem hn
  have hrep := h.represents n _ hx
  have hrep' := (h.outside hev).represents n _ hx
  have hroot := h.root n _ hx
  have hsize := (h.describes n _ hx).rowSize
  refine ⟨?_, ?_, ?_, ?_⟩
  · rw [hev.page 0 (not_le.mpr h.pos)]
    exact fun _ _ _ => rfl
  · intro key
    rw [hroot, hsize, hrep.findRow h.sound, hrep'.findRow hev.sound]
  · rw [hroot, hsize, hrep.tableCells h.sound, hrep'.tableCells hev.sound]
  · rw [hroot, hsize]
    exact ⟨_, hrep', rfl⟩

/-- An `INSERT` that was turned down, or found no page for the leaf. -/
theorem InsertOutcome.outside {table : Table} {σ : Schema} (hs : s.Sound)
    (h : InsertOutcome s table n σ t values o s') (hr : o.result ≠ .commandSuccess) :
    Evolves s s' {q | s.numPages ≤ q} ∅ := by
  cases h with
  | mismatch => exact Evolves.refl hs
  | duplicate _ _ _ hf => exact hf.evolves
  | tooLong _ hf => exact hf.evolves
  | noPage _ _ hev => exact hev
  | inserted => exact absurd rfl hr

/-- **A failed `INSERT` keeps all tables** exactly when it did not run out of pages half way. -/
theorem insertCommand_failed_iff (h : Reachable Finishes s)
    (hfind : catalogNodeFindTable (s.page 0) name = .ok (some n))
    (hrun : insertCommand s (openTable s n name) name values = .ok (o, s'))
    (hr : o.result ≠ .commandSuccess) :
    (∀ m < catalogNodeNumTables (s.page 0), KeepsTable s s' m) ↔
      CanFinish s (openTable s n name) n values := by
  obtain ⟨ts, hdb⟩ := h.database
  obtain ⟨x, hx, hholds⟩ := hdb.holds hfind
  have hrun' : insertCommand s (openTable s n name) (openTable s n name).tableName values =
    .ok (o, s') := hrun
  constructor
  · intro hkeeps
    by_contra hno
    obtain ⟨s₁, hfail, hlost⟩ := insertCommand_exhausted hholds hno
    rw [hrun'] at hfail
    cases hfail
    have hn : n < catalogNodeNumTables (s.page 0) := by
      rw [hdb.count]
      exact (List.getElem?_eq_some_iff.mp hx).1
    have htree := (hkeeps n hn).tree
    rw [hholds.describes.rowSize] at htree
    exact hlost htree
  · intro hcan m hm
    obtain ⟨o', s₁, hspec, hout⟩ := insertCommand_spec hholds hcan
    rw [hrun'] at hspec
    cases hspec
    exact hdb.keepsTable (hout.outside hdb.sound hr) hm

/-- The second row with the key `2`. -/
theorem insertCommand_failed_iff_notes : ∃ s s', Reachable Finishes s ∧
    insertCommand s (openTable s 0 notesName) notesName (notesRow 2) =
      .ok (⟨.idDuplicateError, [idDuplicated 2]⟩, s') ∧
      ∀ m < catalogNodeNumTables (s.page 0), KeepsTable s s' m := by
  obtain ⟨s, hreach, h, hnum⟩ := exists_two
  have hkey : (notesRow 2)[primaryIndex notes]? = some (.literalInt 2) := rfl
  obtain ⟨s', -, hdup, -⟩ := insertCommand_matches h.holds (matches_notesRow 2) hkey
  have hrun := hdup ⟨notesCell (rowKey 2), List.mem_cons_of_mem _ (List.mem_singleton_self _), rfl⟩
  have hroom : HasRoom s (openTable s 0 notesName) 0 (notesRow 2) := by
    refine h.holds.hasRoom hkey ?_
    unfold treeInserted
    rw [hnum]
    decide
  exact ⟨s, s', hreach, hrun,
    (insertCommand_failed_iff hreach h.find hrun (by decide)).mpr hroom.canFinish⟩

/-! ## A database without pages -/

/-- The `CREATE TABLE` of a table with a column name that is too long. -/
theorem OneTable.create_refused (h : OneTable s name definitions hv t) {other : List UInt8}
    (hother : Storable other) (hne : lowercase other ≠ lowercase name)
    {wide : List ColumnDefinition}
    (hwide : ValidDefinitions wide) (hlong : ∃ d ∈ wide, columnNameSize < d.name.length)
    (hroom : s.numPages < tablesMaxPages) :
    ∃ s', execute s (.createTable other wide) =
        .ok (⟨.commandSuccess, [ascii "Column name too long"]⟩, s') ∧
      OneTable s' name definitions hv t ∧ s'.numPages = s.numPages + 1 := by
  have hcount : catalogNodeNumTables (s.page 0) = 1 := h.database.count
  obtain ⟨s', hr, hnum, hev, hbytes⟩ := createTable_refused h.database.sound h.database.pos
    (by rw [hcount]; decide) hroom hother.1.le hwide hlong
  refine ⟨s', ?_, ⟨h.database.refused hev hbytes, ?_, ?_⟩, hnum⟩
  · rw [execute_createTable (h.findTable_other hne), hr]
  · rw [catalogNodeFindTable_congr hbytes]
    exact h.find
  · intro i hi
    have hentry : SameEntry 0 (s.page 0) (s'.page 0) := SameEntry.of_lt hbytes (by omega)
    have hcols := (schemaOf definitions hv).bounded
    have hlen : (schemaOf definitions hv).types.length = definitions.length := List.length_map _
    rw [hentry.columnName (by omega), h.columns i hi]

/-- A single column, whose name does not fit into its field. -/
def wider : List ColumnDefinition := [⟨List.replicate 33 97, .columnInteger, true⟩]

theorem validWider : ValidDefinitions wider := ⟨by decide, _, rfl, rfl⟩

/-- A table with rows in ascending order, and any number of pages in use. -/
theorem exists_pages {m : ℕ} (hm : m + 1 ≤ internalNodeMaxKeys) (k : ℕ)
    (hk : m + 4 + k ≤ tablesMaxPages) : ∃ s, Reachable Finishes s ∧
    OneTable s notesName notes validNotes (ascending m) ∧ s.numPages = m + 4 + k := by
  induction k with
  | zero => exact exists_ascending hm
  | succ k ih =>
    obtain ⟨s, hreach, h, hnum⟩ := ih (by omega)
    have hother : Storable (ascii "t") := by decide
    obtain ⟨s', hrun, h', hnum'⟩ := h.create_refused hother (by decide) validWider
      ⟨_, List.mem_singleton_self _, by decide⟩ (by omega)
    have hstep : CarriesOut s (.createTable (ascii "t") wider) s' := ⟨validWider, _, hrun⟩
    have hok : Finishes s (.createTable (ascii "t") wider) := trivial
    exact ⟨s', hreach.tail hok hstep, h', by omega⟩

/-- **The next row when the root has no room and one page is left.** -/
theorem not_canFinish_ascending {m : ℕ} (hm : m + 1 = internalNodeMaxKeys)
    (h : OneTable s notesName notes validNotes (ascending m))
    (hnum : s.numPages + 1 = tablesMaxPages) :
    ¬ CanFinish s (openTable s 0 notesName) 0 (notesRow (rowKey (m + 4))) := by
  have hholds := h.holds
  have hkeys := internalNodeMaxKeys_eq
  have hk : m + 4 < 1000 := by omega
  have hkey : (notesRow (rowKey (m + 4)))[primaryIndex notes]? =
    some (.literalInt (rowKey (m + 4))) := rfl
  have hmax : leafNodeMaxCells (schemaOf notes validNotes).rowSize = 2 := leafNodeMaxCells_notes
  have hlen : ((ascending m).2.leafFor (rowKey (m + 4))).cells.length = 2 := by
    rw [leafFor_ascending hk]
    rfl
  have hat := hholds.splitsAt (matches_notesRow _) hkey (key_ne_ascending hk)
    (textsFit_notesRow _) (by rw [hlen, hmax])
  have hneed := hholds.represents.pagesNeeded_eq (rowKey (m + 4))
    (insertedRow (notesRow (rowKey (m + 4)))) hholds.sound
  have hst : Stored s.page (schemaOf notes validNotes).rowSize (ascending m).2 0 :=
    hholds.represents.stored
  have hsized : (BPlusTree.Tree.node 1 (ladder 1 (m + 1)) : PageTree (0 + 1)).Sized
      (leafNodeMaxCells (schemaOf notes validNotes).rowSize) internalNodeMaxKeys :=
    hholds.represents.good.sized
  have hov : (BPlusTree.Tree.node 1 (ladder 1 (m + 1)) : PageTree (0 + 1)).Overflows
      (leafNodeMaxCells (schemaOf notes validNotes).rowSize) internalNodeMaxKeys
      (rowKey (m + 4)) := by
    refine ⟨?_, ?_⟩
    · rw [Tree.overflows_zero, hmax]
      exact hlen.ge
    · exact (hm.symm.le).trans (length_seps_ladder 1 (m + 1)).ge
  intro hcan
  rcases hcan _ hat with hroot | hfull | hroom
  · -- the leaf is not the root
    have hmem := Kids.pick_mem_children (rowKey (m + 4)) (ladder 1 (m + 1))
    have hbelow := hst.isRoot_below _ (Multiset.mem_of_le (Tree.labels_le_below hmem)
      (Tree.leaf_page_mem_labels (Tree.leafFor_mem_leaves (rowKey (m + 4)) _)))
    exact absurd (hbelow.symm.trans hroot) (by decide)
  · omega
  · -- the leaf takes one page, and the root two
    have hnext := next_insertRoot_node (rowKey (m + 4))
      (rowBytes (insertedRow (notesRow (rowKey (m + 4)))).values) s.numPages hsized
    rw [if_pos hov, if_pos hov.leafFor] at hnext
    rw [hholds.describes.rowSize] at hroom
    have hpages : s.numPages + pagesNeeded s _ (schemaOf notes validNotes).rowSize = _ :=
      hneed.trans hnext
    omega

/-- The leaf of the row `342` is split, and then there is no page for the root. -/
theorem not_keepsTable_exhausted : ∃ s, Reachable Finishes s ∧ ∃ s',
    insertCommand s (openTable s 0 notesName) notesName (notesRow (rowKey 343)) =
      .ok (⟨.failure, [cannotInsert]⟩, s') ∧
      ¬ ∀ m < catalogNodeNumTables (s.page 0), KeepsTable s s' m := by
  obtain ⟨m, hm⟩ : ∃ m, m = 339 := ⟨_, rfl⟩
  have hkey : m + 4 = 343 := by omega
  have hkeys := internalNodeMaxKeys_eq
  have hpages : tablesMaxPages = 20000 := rfl
  obtain ⟨s, hreach, h, hnum⟩ := exists_pages (m := m) (by omega) 19656 (by omega)
  have hno := not_canFinish_ascending (by omega) h (by omega)
  rw [hkey] at hno
  obtain ⟨s', hfail, hlost⟩ := insertCommand_exhausted h.holds hno
  refine ⟨s, hreach, s', hfail, ?_⟩
  intro hkeeps
  have hcount : catalogNodeNumTables (s.page 0) = 1 := h.database.count
  have htree := (hkeeps 0 (by rw [hcount]; exact Nat.one_pos)).tree
  rw [h.holds.describes.rowSize] at htree
  exact hlost htree

end MiniDB
