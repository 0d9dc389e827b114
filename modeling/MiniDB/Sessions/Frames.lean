import MiniDB.Sessions.Ascending

/-!
# What a statement leaves alone

Every table has pages of its own, and a statement on one table writes no page of another.

* `OwnPages`: the pages of the tables are apart from each other.
* `Change.newPages`: the pages that the tables gain were in no tree before.
* `Change.spares`: the tables that the statement does not name keep their pages.
* `Change.catalog`: only a `CREATE TABLE` writes the catalog page.
* `reachable_frames`: **all of it, in every reachable state**.
-/

namespace MiniDB

open BPlusTree Pager

variable {s s' : Pager} {ts ts' : List TableInfo} {tree : AstNode} {n : ℕ} {x : TableInfo}

/-- A page of a tree is used once, and it is not the catalog page; no two tables share one. -/
structure OwnPages (ts : List TableInfo) : Prop where
  once : ∀ (n : ℕ) (x : TableInfo), ts[n]? = some x → x.tree.2.labels.Nodup ∧ 0 ∉ x.tree.2.labels
  disjoint : ∀ (n m : ℕ) (x y : TableInfo), ts[n]? = some x → ts[m]? = some y → n ≠ m →
    ∀ q ∈ x.tree.2.labels, q ∉ y.tree.2.labels

theorem Database.ownPages (h : Database s ts) : OwnPages ts :=
  ⟨fun n x hx => ⟨(h.represents n x hx).good.nodup, (h.represents n x hx).zero⟩, h.disjoint⟩

/-- A page that does not exist yet is in no tree. -/
theorem Database.notMem_of_le (h : Database s ts) {q : ℕ} (hq : s.numPages ≤ q) {m : ℕ}
    {y : TableInfo} (hy : ts[m]? = some y) : q ∉ y.tree.2.labels :=
  fun hmem => absurd (h.page_lt hy hmem) (not_lt.mpr hq)

/-- **The pages that a table has after a statement** are pages it had before, or new ones. -/
theorem Change.newPages (h : Change s ts s' tree ts') {m : ℕ} {y : TableInfo}
    (hy : ts'[m]? = some y) {q : ℕ} (hq : q ∈ y.tree.2.labels) :
    (∃ x, ts[m]? = some x ∧ q ∈ x.tree.2.labels) ∨ s.numPages ≤ q := by
  -- a table that was rewritten on its own pages and new ones
  have hset : ∀ {n : ℕ} {x z : TableInfo}, ts[n]? = some x →
      (∀ q ∈ z.tree.2.labels, q ∈ x.tree.2.labels ∨ s.numPages ≤ q) →
      (ts.set n z)[m]? = some y → (∃ x, ts[m]? = some x ∧ q ∈ x.tree.2.labels) ∨
        s.numPages ≤ q := by
    intro n x z hx hlabels hy
    rcases getElem?_set_cases hx hy with ⟨rfl, rfl⟩ | ⟨-, hy⟩
    · exact (hlabels q hq).imp_left fun hmem => ⟨x, hx, hmem⟩
    · exact Or.inl ⟨y, hy, hq⟩
  cases h with
  | same => exact Or.inl ⟨y, hy, hq⟩
  | refused => exact Or.inl ⟨y, hy, hq⟩
  | created =>
    rcases lt_or_ge m ts.length with hm | hm
    · rw [List.getElem?_append_left hm] at hy
      exact Or.inl ⟨y, hy, hq⟩
    · rw [List.getElem?_append_right hm, List.getElem?_singleton] at hy
      split at hy
      · cases hy
        exact Or.inr (Multiset.mem_singleton.mp hq).ge
      · cases hy
  | inserted hx =>
    refine hset hx ?_ hy
    exact fun q hq => mem_labels_inserted hq
  | updated hx =>
    refine hset hx ?_ hy
    intro q hq
    rw [Tree.labels_mapCells] at hq
    exact Or.inl hq
  | deleted hx =>
    refine hset hx ?_ hy
    intro q hq
    rw [Tree.labels_mapCells] at hq
    exact Or.inl hq

/-- The catalog page and the tables other than the one with number `n` are as they were. -/
structure Spares (s : Pager) (ts : List TableInfo) (s' : Pager) (ts' : List TableInfo) (n : ℕ) :
    Prop where
  catalog : s'.page 0 = s.page 0
  others : ∀ (m : ℕ) (y : TableInfo), m ≠ n → ts[m]? = some y →
    ts'[m]? = some y ∧ ∀ q ∈ y.tree.2.labels, s'.page q = s.page q

/-- A step on one table spares the catalog page. -/
theorem Database.catalog (h : Database s ts) (hx : ts[n]? = some x) {M : Set ℕ}
    (hev : Evolves s s' {q | q ∈ x.tree.2.labels ∨ s.numPages ≤ q} M) :
    s'.page 0 = s.page 0 := by
  refine hev.page 0 ?_
  rintro (hq | hq)
  · exact (h.represents n x hx).zero hq
  · exact absurd h.pos (not_lt.mpr hq)

/-- A step on one table spares the others. -/
theorem Database.spares (h : Database s ts) (hx : ts[n]? = some x) {z : TableInfo} {M : Set ℕ}
    (hev : Evolves s s' {q | q ∈ x.tree.2.labels ∨ s.numPages ≤ q} M) :
    Spares s ts s' (ts.set n z) n := by
  constructor
  · exact h.catalog hx hev
  · intro m y hne hy
    refine ⟨by rw [List.getElem?_set_ne hne.symm]; exact hy, ?_⟩
    intro q hq
    refine hev.page q ?_
    rintro (hq' | hq')
    · exact h.disjoint m n y x hy hx hne q hq hq'
    · exact h.notMem_of_le hq' hy hq

/-- **An `INSERT`, an `UPDATE` or a `DELETE` spares the tables it does not name.** -/
theorem Change.spares (h : Change s ts s' tree ts') (hdb : Database s ts)
    (hnot : ∀ name definitions, tree ≠ .createTable name definitions)
    (hfind : catalogNodeFindTable (s.page 0) tree.table = .ok (some n)) :
    Spares s ts s' ts' n := by
  cases h with
  | same hev =>
    have hpage : ∀ q < s.numPages, s'.page q = s.page q := fun q hq => hev.page q (not_le.mpr hq)
    exact ⟨hpage 0 hdb.pos, fun m y _ hy => ⟨hy, fun q hq => hpage q (hdb.page_lt hy hq)⟩⟩
  | refused => exact absurd rfl (hnot _ _)
  | created => exact absurd rfl (hnot _ _)
  | inserted hx hfind' _ _ _ _ _ hev =>
    have heq := hfind.symm.trans hfind'
    cases heq
    exact hdb.spares hx hev
  | updated hx hfind' _ _ hev =>
    have heq := hfind.symm.trans hfind'
    cases heq
    exact hdb.spares hx hev
  | deleted hx hfind' hev =>
    have heq := hfind.symm.trans hfind'
    cases heq
    exact hdb.spares hx hev

/-- **Only a `CREATE TABLE` writes the catalog page.** -/
theorem Change.catalog (h : Change s ts s' tree ts') (hdb : Database s ts) :
    s'.page 0 = s.page 0 ∨ ∃ name definitions, tree = .createTable name definitions ∧
      ((∃ d ∈ definitions, columnNameSize < d.name.length) ∨
        ∃ hv, Created s name definitions hv s') := by
  cases h with
  | same hev => exact Or.inl (hev.page 0 (not_le.mpr hdb.pos))
  | refused hlong => exact Or.inr ⟨_, _, rfl, Or.inl hlong⟩
  | created hv hc => exact Or.inr ⟨_, _, rfl, Or.inr ⟨hv, hc⟩⟩
  | inserted hx _ _ _ _ _ _ hev => exact Or.inl (hdb.catalog hx hev)
  | updated hx _ _ _ hev => exact Or.inl (hdb.catalog hx hev)
  | deleted hx _ hev => exact Or.inl (hdb.catalog hx hev)

/-! ## Two tables -/

/-- A second table. -/
def tagsName : List UInt8 := ascii "tags"

/-- The name still stands for the first table when there is a second one. -/
theorem OneTable.find_created {name other : List UInt8} {definitions others : List ColumnDefinition}
    {hv : ValidDefinitions definitions} {hothers : ValidDefinitions others} {t : PageTreeAny}
    (h : OneTable s name definitions hv t) (hc : Created s other others hothers s') :
    catalogNodeFindTable (s'.page 0) name = .ok (some 0) := by
  have hcount : catalogNodeNumTables (s.page 0) = 1 := h.database.count
  obtain ⟨-, -, -, htest, -⟩ := findFirst_eq_some h.find
  rw [← hc.name_eq (by omega)] at htest
  rw [catalogNodeFindTable, hc.count, hcount]
  show (nameEquals name (catalogNodeName (s'.page 0) 0) >>= _) = _
  rw [htest]
  rfl

/-- One table with two rows, and one without any. -/
theorem exists_tables : ∃ s, Reachable Finishes s ∧
    Database s [⟨schemaOf notes validNotes,
        ⟨0, .leaf 1 [notesCell (rowKey 1), notesCell (rowKey 2)]⟩⟩,
      ⟨schemaOf notes validNotes, ⟨0, .leaf 2 []⟩⟩] ∧
    catalogNodeFindTable (s.page 0) notesName = .ok (some 0) ∧ s.numPages = 3 := by
  obtain ⟨s₀, hreach₀, h₀, hnum₀⟩ := exists_two
  have hcount : catalogNodeNumTables (s₀.page 0) = 1 := h₀.database.count
  have hlength : tagsName.length ≤ columnNameSize := by decide
  obtain ⟨s, hrun, hc⟩ := createTable_created h₀.database.sound h₀.database.pos
    (by rw [hcount]; decide) (by rw [hnum₀]; decide) hlength validNotes (by decide)
  have hother : catalogNodeFindTable (s₀.page 0) tagsName = .ok none :=
    h₀.findTable_other (by decide)
  have hstep : CarriesOut s₀ (.createTable tagsName notes) s :=
    ⟨validNotes, _, (execute_createTable hother notes).trans hrun⟩
  have hok : Finishes s₀ (.createTable tagsName notes) := trivial
  have hdb := h₀.database.created hc
  rw [hnum₀] at hdb
  exact ⟨s, hreach₀.tail hok hstep, hdb, h₀.find_created hc, by rw [hc.numPages, hnum₀]⟩

/-- **The third row splits the root of the first table**, on pages behind those of the second
one. -/
theorem Database.insert_third {y : TableInfo}
    (h : Database s [⟨schemaOf notes validNotes,
      ⟨0, .leaf 1 [notesCell (rowKey 1), notesCell (rowKey 2)]⟩⟩, y])
    (hfind : catalogNodeFindTable (s.page 0) notesName = .ok (some 0)) (hnum : s.numPages = 3) :
    ∃ s', (AstNode.insert notesName (notesRow (rowKey 3))).CanFinish s ∧
      CarriesOut s (.insert notesName (notesRow (rowKey 3))) s' ∧
      s'.numPages = s.numPages + 2 := by
  obtain ⟨x, hx, hholds⟩ := h.holds hfind
  cases hx
  have hins : (afterInsert notes s.numPages (rowKey 3) (notesRow (rowKey 3))
      ⟨0, .leaf 1 [notesCell (rowKey 1), notesCell (rowKey 2)]⟩).2 = s.numPages + 2 := by
    rw [hnum]
    rfl
  have hnew : ∀ a ∈ [notesCell (rowKey 1), notesCell (rowKey 2)], a.1 ≠ rowKey 3 := by decide
  have hroom : (afterInsert notes s.numPages (rowKey 3) (notesRow (rowKey 3))
      ⟨0, .leaf 1 [notesCell (rowKey 1), notesCell (rowKey 2)]⟩).2 ≤ tablesMaxPages := by
    rw [hins, hnum]
    decide
  have hkey : (notesRow (rowKey 3))[(schemaOf notes validNotes).primaryKey]? =
    some (.literalInt (rowKey 3)) := rfl
  obtain ⟨s', hrun, hnum', -⟩ := insertCommand_inserted hholds (matches_notesRow _)
    (textsFit_notesRow _) hkey hnew hroom
  refine ⟨s', fun n hn => ?_, ⟨trivial, _, (execute_insert hfind _).trans hrun⟩, hnum'.trans hins⟩
  rw [hfind] at hn
  cases hn
  exact (hholds.hasRoom hkey hroom).canFinish

/-! ## Every reachable state -/

/-- **Tables never share pages and never disturb each other.** In every reachable state the trees of
the tables are on pages of their own; a statement takes only pages that were in no tree, and if it
names a table it spares the catalog page and all other tables. -/
theorem reachable_frames (h : Reachable Finishes s) : ∃ ts, Database s ts ∧ OwnPages ts ∧
    ∀ tree s', tree.CanFinish s → CarriesOut s tree s' → ∃ ts', Database s' ts' ∧ OwnPages ts' ∧
      (∀ (m : ℕ) (y : TableInfo), ts'[m]? = some y → ∀ q ∈ y.tree.2.labels,
        (∃ x, ts[m]? = some x ∧ q ∈ x.tree.2.labels) ∨
          ∀ (k : ℕ) (x : TableInfo), ts[k]? = some x → q ∉ x.tree.2.labels) ∧
      ∀ n, (∀ name definitions, tree ≠ .createTable name definitions) →
        catalogNodeFindTable (s.page 0) tree.table = .ok (some n) → Spares s ts s' ts' n := by
  obtain ⟨ts, hdb⟩ := h.database
  refine ⟨ts, hdb, hdb.ownPages, ?_⟩
  rintro tree s' hcan ⟨hparsed, o, hrun⟩
  obtain ⟨ts', hchange, hdb'⟩ := execute_change hdb hparsed hcan hrun
  refine ⟨ts', hdb', hdb'.ownPages, ?_, fun n hnot hfind => hchange.spares hdb hnot hfind⟩
  intro m y hy q hq
  refine (hchange.newPages hy hq).imp_right fun hge k x hx => ?_
  exact hdb.notMem_of_le hge hx

/-- A third row goes into the one of two tables: it takes two pages, and the other table is left
alone. -/
theorem reachable_frames_notes : ∃ s s' ts ts', Reachable Finishes s ∧ Database s ts ∧
    ts.length = 2 ∧ OwnPages ts ∧
    CarriesOut s (.insert notesName (notesRow (rowKey 3))) s' ∧ s'.numPages = s.numPages + 2 ∧
    Database s' ts' ∧ OwnPages ts' ∧ Spares s ts s' ts' 0 := by
  obtain ⟨s, hreach, hdb, hfind, hnum⟩ := exists_tables
  obtain ⟨ts, hdb₁, hown, hsteps⟩ := reachable_frames hreach
  obtain ⟨s', hcan, hstep, hnum'⟩ := hdb.insert_third hfind hnum
  obtain ⟨ts', hdb', hown', -, hspares⟩ := hsteps _ s' hcan hstep
  refine ⟨s, s', ts, ts', hreach, hdb₁, ?_, hown, hstep, hnum', hdb', hown', ?_⟩
  · rw [← hdb₁.count, hdb.count]
    rfl
  · exact hspares 0 (fun _ _ h => by cases h) hfind

end MiniDB
