import MiniDB.Sessions.Ascending
import MiniDB.Sessions.TableRuns
import MiniDB.Storage.Backing
import MiniDB.Storage.Reloaded

/-!
# Databases that are closed and opened again

A run now goes through several sessions: between two statements the database may be closed and its
file opened again.  What the dirty flags are for is that this loses nothing.

A node that is split hangs children on another parent, and the pages of these children are written
without being marked dirty.  `AstNode.MovesDirty` says that they are dirty already.

* `SessionEvent`, `SessionStep`, `ReachableAcross`: runs through several sessions.
* `Saved`, `AllSaved`: what differs from the file is dirty.
* `Persists`: what is there after opening the file again.
* `Tracked`: the invariant of these runs, with `Tracked.change` for a statement and
  `Database.reopen` for closing and opening.
* `OneTable.reopen`: a table in the next session.
* `reachable_persists`: **nothing is lost**, as long as every `INSERT` moves dirty pages only.
-/

namespace MiniDB

open BPlusTree Pager

/-! ## Runs through several sessions -/

/-- A statement, or the end of a session and the start of the next one. -/
inductive SessionEvent where
  | statement (tree : AstNode)
  | reopen

/-- A statement is carried out, or the database is closed and its file opened again. -/
def SessionStep (s : Pager) : SessionEvent → Pager → Prop
  | .statement tree, s' => CarriesOut s tree s'
  | .reopen, s' => openDatabase (pagerClose s) = some s'

/-- The states that such steps lead to, from a new database on, when each event and the state before
it meet the condition. -/
def ReachableAcross (ok : Pager → SessionEvent → Prop) (s : Pager) : Prop :=
  ∃ s₀, openDatabase Disk.empty = some s₀ ∧ Runs.Reached SessionStep ok s₀ s

/-- An `INSERT` for which there are pages enough finds the pages that it hangs on another parent
dirty. -/
def MovesDirty (s : Pager) (table : Table) (n : ℕ) (values : List Expr) : Prop :=
  ∀ leaf, SplitsAt s table n values leaf →
    s.numPages + pagesNeeded s leaf (catalogNodeRowSize (s.page 0) n) ≤ tablesMaxPages →
      ∀ q ∈ movedPages s (splitPath s leaf (catalogNodeRowSize (s.page 0) n)),
        s.pageDirty q = true

/-- The statement hangs no page on another parent that is not dirty. -/
def AstNode.MovesDirty (s : Pager) : AstNode → Prop
  | .insert name values => ∀ n, catalogNodeFindTable (s.page 0) name = .ok (some n) →
      MiniDB.MovesDirty s (openTable s n name) n values
  | _ => True

/-- No `INSERT` runs out of pages half way. -/
def FinishesAcross (s : Pager) : SessionEvent → Prop
  | .statement tree => tree.CanFinish s
  | .reopen => True

/-- No `INSERT` runs out of pages half way or moves a page that is not dirty. -/
def KeepsTrack (s : Pager) : SessionEvent → Prop
  | .statement tree => tree.CanFinish s ∧ tree.MovesDirty s
  | .reopen => True

variable {s s' : Pager} {ts ts' : List TableInfo} {ok : Pager → SessionEvent → Prop}
  {tree : AstNode} {M S : Set ℕ} {len q : ℕ}

theorem ReachableAcross.statement (h : ReachableAcross ok s) (hok : ok s (.statement tree))
    (hstep : CarriesOut s tree s') : ReachableAcross ok s' := by
  obtain ⟨s₀, hopen, hrun⟩ := h
  exact ⟨s₀, hopen, Runs.Reached.tail (l := .statement tree) hrun hok hstep⟩

theorem ReachableAcross.reopen (h : ReachableAcross ok s) (hok : ok s .reopen)
    (hstep : openDatabase (pagerClose s) = some s') : ReachableAcross ok s' := by
  obtain ⟨s₀, hopen, hrun⟩ := h
  exact ⟨s₀, hopen, Runs.Reached.tail (l := .reopen) hrun hok hstep⟩

/-- The states of one session. -/
theorem Reachable.across (h : Reachable Finishes s) : ReachableAcross FinishesAcross s := by
  obtain ⟨s₀, hopen, hrun⟩ := h
  refine ⟨s₀, hopen, hrun.invariant (Runs.Reached.refl s₀) ?_⟩
  intro s tree s' hs hok hstep
  exact Runs.Reached.tail (l := .statement tree) hs hok hstep

/-! ## What has to be saved -/

/-- The page is dirty, or its first `len` bytes are what the file holds. -/
def Saved (s : Pager) (len q : ℕ) : Prop :=
  s.pageDirty q = true ∨ AgreeTo len (s.load q) (s.page q)

/-- **What differs from the file is dirty**: the catalog with its entries, and every page that can
be reached from the root of a table. -/
structure AllSaved (s : Pager) : Prop where
  catalog : Saved s (catalogNodeTable (catalogNodeNumTables (s.page 0))) 0
  tree : ∀ n < catalogNodeNumTables (s.page 0), ∀ q,
    OnTree s (catalogNodeRootPage (s.page 0) n) q → Saved s pageSize q

/-- **What was in memory is there again**: the catalog with its entries, and every page that could
be reached from the root of a table. -/
structure Persists (s s' : Pager) : Prop where
  catalog : AgreeTo (catalogNodeTable (catalogNodeNumTables (s.page 0))) (s.page 0) (s'.page 0)
  tree : ∀ n < catalogNodeNumTables (s.page 0), ∀ q,
    OnTree s (catalogNodeRootPage (s.page 0) n) q → AgreeTo pageSize (s.page q) (s'.page q)

/-- **The invariant.** The file holds whole pages and no more of them than are in use, and what
belongs to the catalog or to a tree is saved or will be. -/
structure Tracked (s : Pager) (ts : List TableInfo) : Prop where
  file : s.disk.Whole
  size : s.disk.size ≤ pageSize * s.numPages
  catalog : Saved s (catalogNodeTable ts.length) 0
  tree : ∀ (n : ℕ) (x : TableInfo), ts[n]? = some x → ∀ q ∈ x.tree.2.labels, Saved s pageSize q

/-- The pages of a table are those of its tree. -/
theorem Database.mem_labels (h : Database s ts) {n : ℕ} (hn : n < catalogNodeNumTables (s.page 0))
    (hq : OnTree s (catalogNodeRootPage (s.page 0) n) q) :
    ∃ x, ts[n]? = some x ∧ q ∈ x.tree.2.labels := by
  rw [h.count] at hn
  have hx := List.getElem?_eq_getElem hn
  rw [h.root n _ hx] at hq
  exact ⟨_, hx, hq.mem_labels (h.represents n _ hx).stored⟩

theorem Tracked.allSaved (h : Tracked s ts) (hdb : Database s ts) : AllSaved s where
  catalog := by
    rw [hdb.count]
    exact h.catalog
  tree n hn q hq := by
    obtain ⟨x, hx, hmem⟩ := hdb.mem_labels hn hq
    exact h.tree n x hx q hmem

/-- A page behind those in use is read as zeros. -/
theorem Tracked.fresh_zero (h : Tracked s ts) (hs : s.Sound) (hq : s.numPages ≤ q) :
    ∀ i < pageSize, s.page q i = 0 := by
  intro i hi
  have hnone : s.pages q = none := by
    rw [← Option.not_isSome_iff_eq_none]
    exact fun hsome => absurd (hs.cached q hsome) (not_lt.mpr hq)
  rw [Pager.page, hnone, Option.getD_none, load_eq hs.length h.file hi]
  have hle := Nat.mul_le_mul_left pageSize hq
  exact h.file.zero _ ((h.size.trans hle).trans (Nat.le_add_right _ _))

/-! ## A statement -/

/-- What is dirty stays dirty, and a page that did not change is as saved as it was. -/
theorem Saved.evolves (h : Saved s len q) (hev : Evolves s s' S M)
    (ha : AgreeTo len (s.page q) (s'.page q)) : Saved s' len q := by
  refine h.imp (hev.pageDirty q) fun hload => ?_
  have heq : s'.load q = s.load q := by
    unfold Pager.load Pager.filePages
    rw [hev.disk, hev.fileLength]
  rw [heq]
  exact hload.trans ha

/-- **One step.** A page of a tree was one before, or it is new and holds something. -/
theorem Tracked.step (h : Tracked s ts) (hdb : Database s ts) (hdb' : Database s' ts')
    (hev : Evolves s s' S M) (hcatalog : Saved s' (catalogNodeTable ts'.length) 0)
    (htree : ∀ (n : ℕ) (x : TableInfo), ts'[n]? = some x → ∀ q ∈ x.tree.2.labels,
      (q ∈ M → s.pageDirty q = true) ∧
        ((∃ (m : ℕ) (y : TableInfo), ts[m]? = some y ∧ q ∈ y.tree.2.labels) ∨ s.numPages ≤ q)) :
    Tracked s' ts' := by
  refine ⟨hev.disk ▸ h.file, ?_, hcatalog, ?_⟩
  · rw [hev.disk]
    exact h.size.trans (Nat.mul_le_mul_left _ hev.numPages)
  · intro n x hx q hq
    obtain ⟨hmoved, hold⟩ := htree n x hx q hq
    by_cases hqM : q ∈ M
    · exact Or.inl (hev.pageDirty q (hmoved hqM))
    rcases hev.tracked q hqM with hsame | hdirty
    · rcases hold with ⟨m, y, hy, hqy⟩ | hfresh
      · exact (h.tree m y hy q hqy).evolves hev fun i _ => congrFun hsame i
      · refine absurd ?_ ((hdb'.represents n x hx).nonzero hq)
        rw [hsame]
        exact h.fresh_zero hdb.sound hfresh
    · exact Or.inl hdirty

/-- A step that rewrites one table. -/
theorem Tracked.replace (h : Tracked s ts) (hdb : Database s ts) {n : ℕ} {x : TableInfo}
    (hx : ts[n]? = some x) {t : PageTreeAny} (hdb' : Database s' (ts.set n ⟨x.schema, t⟩))
    (hev : Evolves s s' {q | q ∈ x.tree.2.labels ∨ s.numPages ≤ q} M)
    (hM : ∀ q ∈ M, s.pageDirty q = true)
    (hlabels : ∀ q ∈ t.2.labels, q ∈ x.tree.2.labels ∨ s.numPages ≤ q) :
    Tracked s' (ts.set n ⟨x.schema, t⟩) := by
  have hzero : s'.page 0 = s.page 0 := by
    refine hev.page 0 ?_
    rintro (hq | hq)
    · exact (hdb.represents n x hx).zero hq
    · exact absurd hq (not_le.mpr hdb.pos)
  refine h.step hdb hdb' hev ?_ ?_
  · rw [List.length_set]
    exact h.catalog.evolves hev fun i _ => congrFun hzero i
  · intro m y hy q hq
    refine ⟨hM q, ?_⟩
    rcases getElem?_set_cases hx hy with ⟨rfl, rfl⟩ | ⟨-, hy⟩
    · exact (hlabels q hq).imp_left fun hold => ⟨m, x, hx, hold⟩
    · exact Or.inl ⟨m, y, hy, hq⟩

/-- The pages that an `INSERT` has moved were dirty. -/
theorem Database.moved_dirty (hdb : Database s ts) {n : ℕ} {x : TableInfo} (hx : ts[n]? = some x)
    {name : List UInt8} {values : List Expr} {key : Int64}
    (hfind : catalogNodeFindTable (s.page 0) name = .ok (some n)) (hm : Matches x.schema values)
    (hfit : TextsFit values) (hkey : values[x.schema.primaryKey]? = some (.literalInt key))
    (hnew : ∀ a ∈ (x.tree.2.leafFor key).cells, a.1 ≠ key)
    (hroom : (treeInserted s x.schema.types key (insertedRow values) x.tree).2 ≤ tablesMaxPages)
    (hmoves : MovesDirty s (openTable s n name) n values) :
    ∀ q ∈ movedPages s (splitPath s (x.tree.2.leafFor key).page x.schema.rowSize),
      s.pageDirty q = true := by
  obtain ⟨y, hy, hholds⟩ := hdb.holds hfind
  obtain rfl : y = x := Option.some_inj.mp (hy.symm.trans hx)
  have hrep := hholds.represents
  by_cases hlt : (y.tree.2.leafFor key).cells.length < leafNodeMaxCells y.schema.rowSize
  · rw [hrep.splitPath_eq key hholds.sound, Tree.cuts_eq_nil hlt]
    rintro q ⟨cut, hcut, -⟩
    exact absurd hcut List.not_mem_nil
  · have hneed := hrep.pagesNeeded_eq key (insertedRow values) hholds.sound
    have hall := hmoves _ (hholds.splitsAt hm hkey hnew hfit (not_lt.mp hlt))
    rw [hholds.describes.rowSize] at hall
    exact hall (hneed.trans_le hroom)

/-- **A statement keeps the invariant**, when it moves dirty pages only. -/
theorem Tracked.change (h : Tracked s ts) (hdb : Database s ts) (hdb' : Database s' ts')
    (hmoves : tree.MovesDirty s) (hchange : Change s ts s' tree ts') : Tracked s' ts' := by
  cases hchange with
  | same hev =>
    have hzero := hev.page 0 (not_le.mpr hdb.pos)
    refine h.step hdb hdb' hev (h.catalog.evolves hev fun i _ => congrFun hzero i) ?_
    exact fun n x hx q hq => ⟨fun hqM => absurd hqM (Set.notMem_empty q), Or.inl ⟨n, x, hx, hq⟩⟩
  | refused _ _ hev hbytes =>
    refine h.step hdb hdb' hev (h.catalog.evolves hev hbytes) ?_
    intro n x hx q hq
    refine ⟨?_, Or.inl ⟨n, x, hx, hq⟩⟩
    rintro (rfl | rfl)
    · exact absurd hq (hdb.represents n x hx).zero
    · exact absurd (hdb.page_lt hx hq) (lt_irrefl _)
  | created hv hc =>
    refine h.step hdb hdb' hc.evolves (Or.inl hc.dirty.1) ?_
    intro n x hx q hq
    refine ⟨fun hqM => absurd hqM (Set.notMem_empty q), ?_⟩
    rcases lt_or_ge n ts.length with hn | hn
    · rw [List.getElem?_append_left hn] at hx
      exact Or.inl ⟨n, x, hx, hq⟩
    · rw [List.getElem?_append_right hn] at hx
      obtain rfl := List.mem_singleton.mp (List.mem_of_getElem? hx)
      exact Or.inr (Multiset.mem_singleton.mp hq).ge
  | inserted hx hfind hm hfit hkey hnew hnum hev =>
    have hroom := hnum.symm.trans_le hev.sound.bounded
    exact h.replace hdb hx hdb' hev
      (hdb.moved_dirty hx hfind hm hfit hkey hnew hroom (hmoves _ hfind))
      fun q hq => mem_labels_inserted hq
  | updated hx _ _ _ hev =>
    refine h.replace hdb hx hdb' hev (fun q hq => absurd hq (Set.notMem_empty q)) ?_
    intro q hq
    rw [Tree.labels_mapCells] at hq
    exact Or.inl hq
  | deleted hx _ hev =>
    refine h.replace hdb hx hdb' hev (fun q hq => absurd hq (Set.notMem_empty q)) ?_
    intro q hq
    rw [Tree.labels_mapCells] at hq
    exact Or.inl hq

/-- A statement leaves the file alone. -/
theorem Change.disk (h : Change s ts s' tree ts') : s'.disk = s.disk := by
  cases h with
  | same hev => exact hev.disk
  | refused _ _ hev _ => exact hev.disk
  | created _ hc => exact hc.evolves.disk
  | inserted _ _ _ _ _ _ _ hev => exact hev.disk
  | updated _ _ _ _ hev => exact hev.disk
  | deleted _ _ hev => exact hev.disk

/-! ## Closing and opening -/

/-- **A database is in the bytes of its pages.** -/
theorem Database.agree (h : Database s ts) (hs : s'.Sound) (hpos : 0 < s'.numPages)
    (hcatalog : AgreeTo (catalogNodeTable ts.length) (s.page 0) (s'.page 0))
    (htree : ∀ (n : ℕ) (x : TableInfo), ts[n]? = some x → ∀ q ∈ x.tree.2.labels,
      AgreeTo pageSize (s.page q) (s'.page q) ∧ q < s'.numPages) : Database s' ts := by
  have hentry : ∀ (n : ℕ) (x : TableInfo), ts[n]? = some x →
      SameEntry n (s.page 0) (s'.page 0) := fun n x hx =>
    SameEntry.of_lt hcatalog (List.getElem?_eq_some_iff.mp hx).1
  refine ⟨hs, hpos, (numTables_congr hcatalog).trans h.count, h.bounded, ?_, ?_, ?_, h.disjoint⟩
  · exact fun n x hx => (h.describes n x hx).congr (hentry n x hx)
  · exact fun n x hx => (hentry n x hx).rootPage.trans (h.root n x hx)
  · exact fun n x hx => (h.represents n x hx).agree (fun q hq => (htree n x hx q hq).1)
      fun q hq => (htree n x hx q hq).2

/-- The entries of the catalog lie on its page. -/
theorem Database.catalog_le (h : Database s ts) : catalogNodeTable ts.length ≤ pageSize := by
  have hbounded := h.bounded
  rw [catalogNodeTable_eq]
  unfold maxCatalogTables at hbounded
  unfold pageSize
  omega

/-- A page that is saved is in the file after closing. -/
theorem Tracked.agree_closed (h : Tracked s ts) (hs : s.Sound)
    (hpage : ∀ i < pageSize, s'.page q i = (pagerClose s).byte q i) (hq : q < tablesMaxPages)
    (hsaved : Saved s len q) (hlen : len ≤ pageSize) : AgreeTo len (s.page q) (s'.page q) := by
  intro i hi
  rw [hpage i (hi.trans_le hlen), byte_pagerClose hq (hi.trans_le hlen)]
  split
  · rfl
  · next hclean =>
    have hload := hsaved.resolve_left hclean i hi
    rw [load_eq hs.length h.file (hi.trans_le hlen)] at hload
    exact hload.symm

/-- **Closing a database and opening its file again** gives the same database, all of it clean. -/
theorem Database.reopen (hdb : Database s ts) (h : Tracked s ts) :
    ∃ s', openDatabase (pagerClose s) = some s' ∧ Database s' ts ∧ Tracked s' ts ∧
      Persists s s' ∧ ∀ q, s'.pageDirty q = false := by
  have hfile := h.file.pagerClose
  obtain ⟨s', hopen, hs', hdisk, hnum, hclean, hpage⟩ := openDatabase_whole hfile
  have hcatalog : AgreeTo (catalogNodeTable ts.length) (s.page 0) (s'.page 0) :=
    h.agree_closed hdb.sound (hpage 0) (by decide) h.catalog hdb.catalog_le
  have hagree : ∀ (n : ℕ) (x : TableInfo), ts[n]? = some x → ∀ q ∈ x.tree.2.labels,
      AgreeTo pageSize (s.page q) (s'.page q) := by
    intro n x hx q hq
    have hlt := (hdb.page_lt hx hq).trans_le hdb.sound.bounded
    exact h.agree_closed hdb.sound (hpage q) hlt (h.tree n x hx q hq) le_rfl
  have hlt : ∀ (n : ℕ) (x : TableInfo), ts[n]? = some x → ∀ q ∈ x.tree.2.labels,
      q < s'.numPages := by
    intro n x hx q hq
    have hnonzero := (hdb.represents n x hx).nonzero hq
    push Not at hnonzero
    obtain ⟨i, hi, hbyte⟩ := hnonzero
    rw [← hagree n x hx q hq i hi, hpage q i hi] at hbyte
    rw [hnum]
    exact (hfile.page_lt hbyte).trans_le (le_max_left _ _)
  have hdb' := hdb.agree hs' (by omega) hcatalog fun n x hx q hq =>
    ⟨hagree n x hx q hq, hlt n x hx q hq⟩
  have hload : ∀ q, ∀ len ≤ pageSize, AgreeTo len (s'.load q) (s'.page q) := by
    intro q len hlen i hi
    rw [hpage q i (hi.trans_le hlen), load_eq hs'.length (hdisk ▸ hfile) (hi.trans_le hlen), hdisk]
  refine ⟨s', hopen, hdb', ⟨hdisk ▸ hfile, ?_, ?_, ?_⟩, ⟨?_, ?_⟩, hclean⟩
  · rw [hdisk, hnum]
    obtain ⟨k, hk⟩ := hfile.pages
    rw [hk, Nat.mul_div_cancel_left k (by decide)]
    exact Nat.mul_le_mul_left _ (le_max_left _ _)
  · exact Or.inr (hload 0 _ hdb.catalog_le)
  · exact fun n x hx q hq => Or.inr (hload q _ le_rfl)
  · rw [hdb.count]
    exact hcatalog
  · intro n hn q hq
    obtain ⟨x, hx, hmem⟩ := hdb.mem_labels hn hq
    exact hagree n x hx q hmem

/-! ## Runs -/

/-- A new database is tracked. -/
theorem tracked_empty (hopen : openDatabase Disk.empty = some s) :
    Database s [] ∧ Tracked s [] := by
  obtain ⟨s₁, hopen₁, hdb⟩ := database_empty
  obtain rfl : s₁ = s := Option.some_inj.mp (hopen₁.symm.trans hopen)
  obtain ⟨s₂, hopen₂, hs, -, hzero, hdisk⟩ := openDatabase_empty
  obtain rfl : s₂ = s₁ := Option.some_inj.mp (hopen₂.symm.trans hopen)
  have hfile : s₂.disk.Whole := hdisk ▸ Disk.whole_empty
  refine ⟨hdb, hfile, ?_, Or.inr fun i hi => ?_, fun n x hx => by cases hx⟩
  · rw [hdisk]
    exact Nat.zero_le _
  · have hi' : i < pageSize := hi.trans_le hdb.catalog_le
    rw [hzero i hi', load_eq hs.length hfile hi', hdisk]
    rfl

/-- **The invariant holds in every state**, as long as every `INSERT` moves dirty pages only. -/
theorem ReachableAcross.tracked (h : ReachableAcross KeepsTrack s) :
    ∃ ts, Database s ts ∧ Tracked s ts := by
  obtain ⟨s₀, hopen, hrun⟩ := h
  refine Runs.Reached.invariant (P := fun s => ∃ ts, Database s ts ∧ Tracked s ts) hrun
    ⟨[], tracked_empty hopen⟩ ?_
  rintro s (tree | _) s' ⟨ts, hdb, htracked⟩ hok hstep
  · obtain ⟨hparsed, o, hexec⟩ := hstep
    obtain ⟨ts', hchange, hdb'⟩ := execute_change hdb hparsed hok.1 hexec
    exact ⟨ts', hdb', htracked.change hdb hdb' hok.2 hchange⟩
  · obtain ⟨s₁, hopen₁, hdb', htracked', -⟩ := hdb.reopen htracked
    obtain rfl : s₁ = s' := Option.some_inj.mp (hopen₁.symm.trans hstep)
    exact ⟨ts, hdb', htracked'⟩

/-- As long as nothing is in the file, every page of a tree is dirty. -/
theorem Tracked.dirty_of_empty (h : Tracked s ts) (hdb : Database s ts)
    (hdisk : s.disk = Disk.empty) {n : ℕ} {x : TableInfo} (hx : ts[n]? = some x)
    (hq : q ∈ x.tree.2.labels) : s.pageDirty q = true := by
  refine (h.tree n x hx q hq).resolve_right fun hload => ?_
  refine (hdb.represents n x hx).nonzero hq fun i hi => ?_
  rw [hload i hi, load_eq hdb.sound.length h.file hi, hdisk]
  rfl

/-- An `INSERT` moves pages of the table's tree only. -/
theorem Database.movesDirty (hdb : Database s ts) (hdirty : ∀ (n : ℕ) (x : TableInfo),
    ts[n]? = some x → ∀ q ∈ x.tree.2.labels, s.pageDirty q = true) (tree : AstNode) :
    tree.MovesDirty s := by
  cases tree with
  | insert name values =>
    intro n hfind leaf hsplits _ q hq
    obtain ⟨x, hx, hholds⟩ := hdb.holds hfind
    obtain ⟨key, s₁, -, hdescent, -⟩ := hsplits.descent
    obtain ⟨s₂, hdescent', -⟩ := hholds.descent key
    obtain rfl : (x.tree.2.leafFor key).page = leaf := by
      have heq := hdescent'.symm.trans hdescent
      cases heq
      rfl
    rw [hholds.describes.rowSize, hholds.represents.splitPath_eq key hholds.sound] at hq
    exact hdirty n x hx q (hholds.represents.stored.mem_labels_of_moved hq)
  | createTable => trivial
  | updateTable => trivial
  | deleteTable => trivial
  | select => trivial

/-- **In the first session of a new file** every page of a tree is dirty, whatever is moved. -/
theorem Reachable.keepsTrack (h : Reachable Finishes s) : ReachableAcross KeepsTrack s := by
  obtain ⟨s₀, hopen, hrun⟩ := h
  have hinv : ReachableAcross KeepsTrack s ∧ s.disk = Disk.empty := by
    refine Runs.Reached.invariant
      (P := fun s => ReachableAcross KeepsTrack s ∧ s.disk = Disk.empty) hrun ?_ ?_
    · obtain ⟨s₁, hopen₁, -, -, -, hdisk⟩ := openDatabase_empty
      obtain rfl : s₁ = s₀ := Option.some_inj.mp (hopen₁.symm.trans hopen)
      exact ⟨⟨s₁, hopen, Runs.Reached.refl s₁⟩, hdisk⟩
    · rintro s tree s' ⟨hacross, hdisk⟩ hfinish hstep
      obtain ⟨ts, hdb, htracked⟩ := hacross.tracked
      have hmoves := hdb.movesDirty
        (fun n x hx q hq => htracked.dirty_of_empty hdb hdisk hx hq) tree
      obtain ⟨hparsed, o, hexec⟩ := hstep
      obtain ⟨ts', hchange, -⟩ := execute_change hdb hparsed hfinish hexec
      have hok : KeepsTrack s (.statement tree) := ⟨hfinish, hmoves⟩
      exact ⟨hacross.statement hok ⟨hparsed, o, hexec⟩, hchange.disk.trans hdisk⟩
  exact hinv.1

theorem Reachable.tracked (h : Reachable Finishes s) : ∃ ts, Database s ts ∧ Tracked s ts :=
  h.keepsTrack.tracked

/-! ## A table in the next session -/

variable {name : List UInt8} {rowSize : ℕ} {definitions : List ColumnDefinition}
  {hv : ValidDefinitions definitions} {t : PageTreeAny}

/-- What can be reached from a page that can be reached. -/
theorem OnTree.trans {a b c : ℕ} (h : OnTree s a b) (h' : OnTree s b c) : OnTree s a c := by
  induction h' with
  | root => exact h
  | child _ htype hc ih => exact ih.child htype hc

/-- **Every page of a stored tree can be reached from its root.** -/
theorem Stored.onTree : {h : ℕ} → {t : PageTree h} → {next : ℕ} →
    Stored s.page rowSize t next → ∀ {q : ℕ}, q ∈ t.labels → OnTree s t.page q
  | 0, _, _, _, _, hq => by
    rw [Multiset.mem_singleton.mp hq]
    exact OnTree.root
  | _ + 1, n, _, hst, q, hq => by
    rcases Multiset.mem_add.mp hq with hq | hq
    · rw [Multiset.mem_singleton.mp hq]
      exact OnTree.root
    · obtain ⟨c, hc, hqc⟩ := Tree.mem_sum_labels.mp hq
      obtain ⟨e, hstc, -⟩ := hst.2.exists_of_mem hc
      have hchild : c.page ∈ internalChildren (s.page n.page) := by
        rw [hst.1.children]
        exact List.mem_map_of_mem hc
      exact (OnTree.root.child hst.1.type hchild).trans (hstc.onTree hqc)

/-- The invariant speaks of the pages that can be reached. -/
theorem AllSaved.tracked (h : AllSaved s) (hdb : Database s ts) (hfile : s.disk.Whole)
    (hsize : s.disk.size ≤ pageSize * s.numPages) : Tracked s ts where
  file := hfile
  size := hsize
  catalog := by
    rw [← hdb.count]
    exact h.catalog
  tree n x hx q hq := by
    refine h.tree n ?_ q ?_
    · rw [hdb.count]
      exact (List.getElem?_eq_some_iff.mp hx).1
    · rw [hdb.root n x hx]
      exact (hdb.represents n x hx).stored.onTree hq

/-- In every run the dirty pages are counted. -/
theorem Reachable.dirty_lt {ok : Pager → AstNode → Prop} (h : Reachable ok s)
    (hq : s.pageDirty q = true) : q < s.numPages := by
  obtain ⟨s₀, hopen, hrun⟩ := h
  have hinv : s.Backed ∧ (s.pages 0).isSome := by
    refine Runs.Reached.invariant (P := fun s => s.Backed ∧ (s.pages 0).isSome) hrun
      (openDatabase_backed hopen) ?_
    rintro s tree s' ⟨hbacked, hzero⟩ - ⟨-, o, hexec⟩
    have hkeeps := execute_keeps hbacked hzero hexec
    exact ⟨hkeeps.backed, hkeeps.held 0 hzero⟩
  exact hinv.1.counted q (hinv.1.dirty q hq)

/-- **A table in the next session**, all of whose pages are clean. -/
theorem OneTable.reopen (h : OneTable s name definitions hv t) (hreach : Reachable Finishes s) :
    ∃ s', openDatabase (pagerClose s) = some s' ∧ OneTable s' name definitions hv t ∧
      s'.disk.Whole ∧ s'.numPages ≤ s.numPages ∧ (∀ q, s'.pageDirty q = false) ∧
      ∀ q ∈ t.2.labels, AgreeTo pageSize (s.page q) (s'.page q) ∧
        AgreeTo pageSize (s'.load q) (s'.page q) := by
  obtain ⟨ts, hdb, htracked⟩ := hreach.tracked
  have hall := htracked.allSaved hdb
  have htracked' := hall.tracked h.database htracked.file htracked.size
  obtain ⟨s', hopen, hdb', htracked'', hpersists, hclean⟩ := h.database.reopen htracked'
  have hcount : catalogNodeNumTables (s.page 0) = 1 := h.database.count
  refine ⟨s', hopen, ⟨hdb', ?_, ?_⟩, htracked''.file, ?_, hclean, ?_⟩
  · rw [catalogNodeFindTable_congr hpersists.catalog]
    exact h.find
  · intro i hi
    have hentry : SameEntry 0 (s.page 0) (s'.page 0) :=
      SameEntry.of_lt hpersists.catalog (by omega)
    have hcols := (schemaOf definitions hv).bounded
    have hlen : (schemaOf definitions hv).types.length = definitions.length := List.length_map _
    rw [hentry.columnName (by omega), h.columns i hi]
  · obtain ⟨s'', hopen', -, -, hnum, -⟩ := openDatabase_whole htracked.file.pagerClose
    obtain rfl : s'' = s' := Option.some_inj.mp (hopen'.symm.trans hopen)
    have hsize := size_pagerClose htracked.size fun q hq => hreach.dirty_lt hq
    rw [hnum]
    refine max_le ?_ h.database.pos
    exact Nat.div_le_of_le_mul hsize
  · intro q hq
    refine ⟨hpersists.tree 0 (by omega) q ?_, ?_⟩
    · rw [h.database.root 0 _ rfl]
      exact h.holds.represents.stored.onTree hq
    · refine (htracked''.tree 0 _ rfl q hq).resolve_left ?_
      rw [hclean q]
      decide

/-- An `INSERT` that cuts no inner node moves no page. -/
theorem Holds.movesDirty {table : Table} {n : ℕ} {σ : Schema} {values : List Expr} {key : Int64}
    (h : Holds s table n σ t) (hkey : values[σ.primaryKey]? = some (.literalInt key))
    (hcuts : t.2.cuts (leafNodeMaxCells σ.rowSize) internalNodeMaxKeys key = []) :
    MovesDirty s table n values := by
  intro leaf hat _ q hq
  obtain ⟨key', s₁, hkey', hdescent', -⟩ := hat.descent
  rw [h.describes.primaryKey, hkey] at hkey'
  cases hkey'
  obtain ⟨s₂, hdescent, -⟩ := h.descent key
  have heq := hdescent.symm.trans hdescent'
  cases heq
  rw [h.describes.rowSize, h.represents.splitPath_eq key h.sound, hcuts] at hq
  obtain ⟨cut, hcut, -⟩ := hq
  exact absurd hcut List.not_mem_nil

/-- **The row behind the one that has split the root** splits the last leaf and no inner node. -/
theorem OneTable.insert_behind {m : ℕ} {l r : Kids Int64 (PageTree 0)} {p : Int64}
    (hm : m + 1 = internalNodeMaxKeys)
    (h : OneTable s notesName notes validNotes
      ⟨2, .node 1 (.cons (.node (m + 5) l) p (.one (.node (m + 6) r)))⟩)
    (happend : l.append p r = ladder 1 (m + 2)) (hpages : s.numPages < tablesMaxPages) :
    KeepsTrack s (.statement (.insert notesName (notesRow (rowKey (m + 5))))) ∧
      ∃ s', CarriesOut s (.insert notesName (notesRow (rowKey (m + 5)))) s' ∧
        s'.numPages = s.numPages + 1 := by
  have hmax := internalNodeMaxKeys_eq
  have hk : m + 5 < 1000 := by omega
  obtain ⟨hp, hpick⟩ := pick_behind hk happend
  have hkey : (notesRow (rowKey (m + 5)))[primaryIndex notes]? =
    some (.literalInt (rowKey (m + 5))) := rfl
  obtain ⟨root, hroot⟩ : ∃ root : PageTree 2,
    root = .node 1 (.cons (.node (m + 5) l) p (.one (.node (m + 6) r))) := ⟨_, rfl⟩
  rw [← hroot] at h
  have hsized := h.holds.represents.good.sized
  have hmaxCells : leafNodeMaxCells (schemaOf notes validNotes).rowSize = 2 :=
    leafNodeMaxCells_notes
  rw [hmaxCells] at hsized
  have hright : root.kids.pick (rowKey (m + 5)) = .node (m + 6) r := by
    rw [hroot]
    exact if_neg (not_lt.mpr hp)
  have hleaf : root.leafFor (rowKey (m + 5)) =
      ⟨rowPage (m + 3), [notesCell (rowKey (m + 3)), notesCell (rowKey (m + 4))]⟩ := by
    show (root.kids.pick (rowKey (m + 5))).leafFor (rowKey (m + 5)) = _
    rw [hright]
    show (r.pick (rowKey (m + 5))).leafFor (rowKey (m + 5)) = _
    rw [hpick]
    rfl
  -- the right half is not full
  have hlength : r.seps.length < internalNodeMaxKeys := by
    have hleft : 1 ≤ l.seps.length := by
      have hchild := hsized.2.2 (.node (m + 5) l) (by rw [hroot]; exact List.mem_cons_self)
      exact hchild.1
    have hall := congrArg (fun k => k.seps.length) happend
    simp only [Kids.seps_append, List.length_append, List.length_cons, length_seps_ladder] at hall
    omega
  have hno : ¬ (root.kids.pick (rowKey (m + 5))).Overflows 2 internalNodeMaxKeys
      (rowKey (m + 5)) := by
    rw [hright]
    exact fun hov => absurd hov.2 (not_le.mpr hlength)
  have hcuts : (root.kids.pick (rowKey (m + 5))).cuts 2 internalNodeMaxKeys (rowKey (m + 5)) =
      [] := by
    rw [hright] at hno ⊢
    rw [Tree.cuts_succ, if_neg hno]
    rfl
  have hno' : ¬ root.Overflows 2 internalNodeMaxKeys (rowKey (m + 5)) := fun hov => hno hov.1
  have hcuts' : root.cuts 2 internalNodeMaxKeys (rowKey (m + 5)) = [] := by
    rw [Tree.cuts_succ, hcuts, if_neg hno']
    rfl
  have hins : (afterInsert notes s.numPages (rowKey (m + 5)) (notesRow (rowKey (m + 5)))
      ⟨2, root⟩).2 = s.numPages + 1 := by
    unfold afterInsert
    rw [leafNodeMaxCells_notes, next_insertRoot_node _ _ _ hsized, hleaf, hcuts, if_neg hno']
    rfl
  have hnew : ∀ a ∈ (root.leafFor (rowKey (m + 5))).cells, a.1 ≠ rowKey (m + 5) := by
    rw [hleaf]
    intro a ha
    rcases List.mem_cons.mp ha with rfl | ha
    · exact (rowKey_lt hk (by omega)).ne
    · rw [List.mem_singleton.mp ha]
      exact (rowKey_lt hk (by omega)).ne
  obtain ⟨hcan, s', hexec, -, hnum⟩ := h.insert (matches_notesRow _) (textsFit_notesRow _) hkey
    hnew (by rw [hins]; exact hpages)
  refine ⟨⟨hcan, fun n hn => ?_⟩, s', ⟨trivial, _, hexec⟩, hnum.trans hins⟩
  rw [h.find] at hn
  cases hn
  exact h.holds.movesDirty hkey (by rw [hmaxCells]; exact hcuts')

/-! ## Nothing is lost -/

/-- **Closing and opening again loses nothing** in runs through any number of sessions in which
every `INSERT` moves dirty pages only. -/
theorem reachable_persists (h : ReachableAcross KeepsTrack s) :
    AllSaved s ∧ ∃ s', openDatabase (pagerClose s) = some s' ∧ Persists s s' := by
  obtain ⟨ts, hdb, htracked⟩ := h.tracked
  obtain ⟨s', hopen, -, -, hpersists, -⟩ := hdb.reopen htracked
  exact ⟨htracked.allSaved hdb, s', hopen, hpersists⟩

/-- The last of the rows `1` to `343` splits the root and moves dirty pages; the row `344` splits a
leaf in the second session, and in the third one everything is there. -/
theorem reachable_persists_notes : ∃ m s₁ s₂ s₃ s₄ left right p, m = 343 ∧
    ReachableAcross KeepsTrack s₁ ∧ OneTable s₁ notesName notes validNotes
      ⟨2, .node 1 (.cons (.node (m + 1) left) p (.one (.node (m + 2) right)))⟩ ∧
    openDatabase (pagerClose s₁) = some s₂ ∧
    CarriesOut s₂ (.insert notesName (notesRow (rowKey (m + 1)))) s₃ ∧
    s₃.numPages = s₂.numPages + 1 ∧ ReachableAcross KeepsTrack s₃ ∧ AllSaved s₃ ∧
    openDatabase (pagerClose s₃) = some s₄ ∧ Persists s₃ s₄ := by
  obtain ⟨m, hm⟩ : ∃ m, m + 1 = internalNodeMaxKeys := ⟨339, rfl⟩
  have hmax := internalNodeMaxKeys_eq
  have hpages : tablesMaxPages = 20000 := rfl
  obtain ⟨s₀, hreach₀, h₀, hnum₀⟩ := exists_ascending hm.le
  obtain ⟨l, p, r, hins, happend, -⟩ := afterInsert_full hm
  obtain ⟨s₁, hreach₁, h₁, hnum₁⟩ := h₀.insert_notes hreach₀ (rowKey (m + 4))
    (key_ne_ascending (by omega)) _ (m + 7) (by rw [hnum₀, hins]) (by omega)
  obtain ⟨s₂, hopen₂, h₂, -, hle, -⟩ := h₁.reopen hreach₁
  have hacross₂ := hreach₁.keepsTrack.reopen trivial hopen₂
  obtain ⟨hok, s₃, hstep, hnum₃⟩ := h₂.insert_behind hm happend (by omega)
  have hacross₃ := hacross₂.statement hok hstep
  obtain ⟨hsaved, s₄, hopen₄, hpersists⟩ := reachable_persists hacross₃
  exact ⟨m + 4, s₁, s₂, s₃, s₄, l, r, p, by omega, hreach₁.keepsTrack, h₁, hopen₂, hstep, hnum₃,
    hacross₃, hsaved, hopen₄, hpersists⟩

end MiniDB
