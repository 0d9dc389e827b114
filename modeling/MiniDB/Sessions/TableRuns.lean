import MiniDB.Sessions.Naming
import MiniDB.Statements.Conditions
import MiniDB.Statements.Lookup

/-!
# Runs on one table

The three functions that change the rows of a table, called one after the other on the table that a
`CREATE TABLE` has left behind.

* `TableCall`, `TableCall.step`: the calls, and what one of them does.
* `FreshTable`: where a run starts.
* `TableRun`: the states that are reached while there are pages.
* `TableRun.holds`: the invariant of these runs.
* `tableRun_tree`: **the pages hold a B+ tree under the same root**.
* `OnTree`: the pages that can be reached from a root.
* `tableRun_chain`: **the leaf links run through the leaves**, and the walks of `UPDATE` and
  `DELETE` treat every row once.
-/

namespace MiniDB

open BPlusTree Pager

/-- A call of one of the functions that change the rows of a table. -/
inductive TableCall where
  | insert (values : List Expr)
  | update (columns values : List Expr) (where_ : Option Expr)
  | delete (where_ : Option Expr)

/-- The function that is called; `delete_command` prints nothing. -/
def TableCall.run (s : Pager) (table : Table) : TableCall → Exec (Outcome × Pager)
  | .insert values => insertCommand s table table.tableName values
  | .update columns values where_ => updateCommand s table table.tableName columns values where_
  | .delete where_ => (deleteCommand s table table.tableName where_).map quiet

/-- The call comes to an end. -/
def TableCall.step (table : Table) (s : Pager) (call : TableCall) (s' : Pager) : Prop :=
  ∃ o, call.run s table = .ok (o, s')

/-- There are pages enough for the call. -/
def TableCall.HasRoom (table : Table) (n : ℕ) (s : Pager) : TableCall → Prop
  | .insert values => MiniDB.HasRoom s table n values
  | _ => True

/-- A table whose root is a leaf that was just initialised, and whose catalog entry describes a
schema. -/
structure FreshTable (s : Pager) (table : Table) (n : ℕ) (σ : Schema) : Prop where
  sound : s.Sound
  find : findTable (s.page 0) table.tableName = .ok n
  describes : Describes (s.page 0) n σ
  root : ∃ p, s.page table.rootPageNum = leafNodeInit p
  root_ne : table.rootPageNum ≠ 0
  root_lt : table.rootPageNum < s.numPages

/-- The states that calls on the fresh table lead to, none of which runs out of pages. -/
def TableRun (table : Table) (n : ℕ) (s₀ s : Pager) : Prop :=
  Runs.Reached (TableCall.step table) (TableCall.HasRoom table n) s₀ s

variable {s s' s₀ : Pager} {table : Table} {n : ℕ} {σ : Schema} {t t' : PageTreeAny} {M : Set ℕ}

theorem FreshTable.holds (h : FreshTable s table n σ) :
    Holds s table n σ ⟨0, .leaf table.rootPageNum []⟩ := by
  obtain ⟨p, hp⟩ := h.root
  exact ⟨h.sound, h.find, h.describes, represents_leafNodeInit σ.rowSize hp h.root_lt h.root_ne,
    rfl⟩

/-- A step that rewrites the tree and nothing else. -/
theorem Holds.replace (h : Holds s table n σ t)
    (hev : Evolves s s' {q | q ∈ t.2.labels ∨ s.numPages ≤ q} M) (ht : Represents s' σ.rowSize t')
    (hpage : t'.2.page = t.2.page) : Holds s' table n σ t' ∧ s'.page 0 = s.page 0 := by
  have hzero : s'.page 0 = s.page 0 := by
    refine hev.page 0 ?_
    rintro (hq | hq)
    · exact h.represents.zero hq
    · exact absurd h.root_lt (by omega)
  refine ⟨⟨hev.sound, ?_, ?_, ht, hpage.trans h.root⟩, hzero⟩
  · rw [hzero]
    exact h.find
  · rw [hzero]
    exact h.describes

/-- A step outside of the pages there are. -/
theorem Holds.outside (h : Holds s table n σ t) (hev : Evolves s s' {q | s.numPages ≤ q} M) :
    Holds s' table n σ t ∧ s'.page 0 = s.page 0 := by
  refine h.replace (hev.mono (fun q hq => Or.inr hq) (Set.Subset.refl M)) ?_ rfl
  refine h.represents.frame (fun q hq => hev.page q ?_) hev.numPages
  exact not_le.mpr (h.represents.good.pages q hq)

/-- **One call keeps the table in order.** -/
theorem Holds.step (h : Holds s table n σ t) {call : TableCall} (hroom : call.HasRoom table n s)
    (hstep : call.step table s s') :
    (∃ t', Holds s' table n σ t') ∧ s'.page 0 = s.page 0 := by
  obtain ⟨o, hrun⟩ := hstep
  cases call with
  | insert values =>
    obtain ⟨o', s'', hspec, hout⟩ := insertCommand_spec h (HasRoom.canFinish hroom)
    have hrun' : insertCommand s table table.tableName values = .ok (o, s') := hrun
    rw [hspec] at hrun'
    cases hrun'
    cases hout with
    | mismatch => exact ⟨⟨t, h⟩, rfl⟩
    | duplicate _ _ _ hf => exact ⟨⟨t, h.fetched hf⟩, by rw [hf.page]⟩
    | tooLong _ hf => exact ⟨⟨t, h.fetched hf⟩, by rw [hf.page]⟩
    | noPage _ _ hev =>
      obtain ⟨h', hzero⟩ := h.outside hev
      exact ⟨⟨t, h'⟩, hzero⟩
    | inserted _ _ _ _ _ hev hrep =>
      obtain ⟨h', hzero⟩ := h.replace hev hrep (page_insertRoot _ _)
      exact ⟨⟨_, h'⟩, hzero⟩
  | update columns values where_ =>
    have hout := updateCommand_spec h columns values where_
    have hrun' : updateCommand s table table.tableName columns values where_ = .ok (o, s') := hrun
    rw [hrun'] at hout
    cases hout with
    | refused hf => exact ⟨⟨t, h.fetched hf⟩, by rw [hf.page]⟩
    | unselected _ _ hf => exact ⟨⟨t, h.fetched hf⟩, by rw [hf.page]⟩
    | updated _ _ _ _ hev _ hrep =>
      obtain ⟨h', hzero⟩ := h.replace (hev.mono (fun q hq => Or.inl hq) (Set.Subset.refl ∅)) hrep
        (Tree.page_mapCells _)
      exact ⟨⟨_, h'⟩, hzero⟩
  | delete where_ =>
    have hrun' : (deleteCommand s table table.tableName where_).map quiet = .ok (o, s') := hrun
    rcases deleteCommand_spec h where_ with ⟨f, -, herr⟩ | ⟨-, s'', hok, -, hev, -, hrep⟩
    · rw [herr] at hrun'
      cases hrun'
    · rw [hok] at hrun'
      cases hrun'
      obtain ⟨h', hzero⟩ := h.replace (hev.mono (fun q hq => Or.inl hq) (Set.Subset.refl ∅)) hrep
        (Tree.page_mapCells _)
      exact ⟨⟨_, h'⟩, hzero⟩

/-- **The invariant of the runs.** -/
theorem TableRun.holds (h : TableRun table n s₀ s) (h₀ : FreshTable s₀ table n σ) :
    (∃ t, Holds s table n σ t) ∧ s.page 0 = s₀.page 0 := by
  refine Runs.Reached.invariant (P := fun s => (∃ t, Holds s table n σ t) ∧ s.page 0 = s₀.page 0)
    h ⟨⟨_, h₀.holds⟩, rfl⟩ ?_
  rintro s call s' ⟨⟨t, ht⟩, hzero⟩ hroom hstep
  obtain ⟨hholds, hzero'⟩ := ht.step hroom hstep
  exact ⟨hholds, hzero'.trans hzero⟩

/-! ## The next call of a run -/

/-- One more `INSERT`. -/
theorem TableRun.insert (h : TableRun table n s₀ s) (ht : Holds s table n σ t) {values : List Expr}
    {key : Int64} (hm : Matches σ values) (hfit : TextsFit values)
    (hkey : values[σ.primaryKey]? = some (.literalInt key))
    (hnew : ∀ a ∈ (t.2.leafFor key).cells, a.1 ≠ key) (t' : PageTreeAny) (pages : ℕ)
    (hins : treeInserted s σ.types key (insertedRow values) t = (t', pages))
    (hroom : pages ≤ tablesMaxPages) :
    ∃ s', TableRun table n s₀ s' ∧ Holds s' table n σ t' ∧ s'.numPages = pages ∧
      s'.page 0 = s.page 0 := by
  have hroom' : (treeInserted s σ.types key (insertedRow values) t).2 ≤ tablesMaxPages := by
    rw [hins]
    exact hroom
  have hpage : (treeInserted s σ.types key (insertedRow values) t).1.2.page = t.2.page :=
    page_insertRoot _ _
  obtain ⟨s', hrun, hnum, hev, hrep⟩ := insertCommand_inserted ht hm hfit hkey hnew hroom'
  rw [hins] at hnum hrep hpage
  obtain ⟨h', hzero⟩ := ht.replace hev hrep hpage
  have hstep : (TableCall.insert values).step table s s' := ⟨_, hrun⟩
  have hok : (TableCall.insert values).HasRoom table n s := ht.hasRoom hkey hroom'
  exact ⟨s', Runs.Reached.tail h hok hstep, h', hnum, hzero⟩

/-- One more `UPDATE`, when the assignments pass the checks and no row stops it. -/
theorem TableRun.update (h : TableRun table n s₀ s) (ht : Holds s table n σ t)
    {columns values : List Expr} {as : List (ℕ × Expr)} (hlen : columns.length = values.length)
    (hres : resolveAssignments (s.page 0) n (columns.zip values) = .ok (.ok as))
    (hfit : TextsFit (as.map Prod.snd)) (where_ : Option Expr)
    (hgood : ∀ f, ∀ c ∈ t.2.contents, ¬ Faulty σ (s.page 0) n where_ f c) :
    ∃ s', updateCommand s table table.tableName columns values where_ =
        .ok (⟨.commandSuccess, []⟩, s') ∧
      TableRun table n s₀ s' ∧
      Holds s' table n σ ⟨t.1, t.2.mapCells (List.map (updatedCell σ (s.page 0) n where_ as))⟩ := by
  rcases updateCommand_fits ht hlen hres where_ (fun _ _ => hfit) with ⟨f, ⟨c, hc, hbad⟩, -⟩ |
    ⟨-, s', hrun, -, hev, -, hrep⟩
  · exact absurd hbad (hgood f c hc)
  · obtain ⟨h', -⟩ := ht.replace (hev.mono (fun q hq => Or.inl hq) (Set.Subset.refl ∅)) hrep
      (Tree.page_mapCells _)
    have hstep : (TableCall.update columns values where_).step table s s' := ⟨_, hrun⟩
    have hok : (TableCall.update columns values where_).HasRoom table n s := trivial
    exact ⟨s', hrun, Runs.Reached.tail h hok hstep, h'⟩

/-- One more `DELETE`, when no row stops it. -/
theorem TableRun.delete (h : TableRun table n s₀ s) (ht : Holds s table n σ t)
    (where_ : Option Expr) (hgood : ∀ f, ∀ c ∈ t.2.contents, ¬ Faulty σ (s.page 0) n where_ f c) :
    ∃ s', TableRun table n s₀ s' ∧
      Holds s' table n σ ⟨t.1, t.2.mapCells (unselected σ (s.page 0) n where_)⟩ ∧
      s'.page 0 = s.page 0 := by
  rcases deleteCommand_spec ht where_ with ⟨f, ⟨c, hc, hbad⟩, -⟩ | ⟨-, s', hrun, -, hev, -, hrep⟩
  · exact absurd hbad (hgood f c hc)
  · obtain ⟨h', hzero⟩ := ht.replace (hev.mono (fun q hq => Or.inl hq) (Set.Subset.refl ∅)) hrep
      (Tree.page_mapCells _)
    have hstep : (TableCall.delete where_).step table s s' :=
      ⟨_, congrArg (Except.map quiet) hrun⟩
    have hok : (TableCall.delete where_).HasRoom table n s := trivial
    exact ⟨s', Runs.Reached.tail h hok hstep, h', hzero⟩

/-- The notes right after they were created. -/
theorem exists_freshNotes : ∃ s table, FreshTable s table 0 (schemaOf notes validNotes) ∧
    table.rootPageNum = 1 ∧ s.numPages = 2 ∧ OneTable s notesName notes validNotes
      ⟨0, .leaf 1 []⟩ := by
  obtain ⟨-, s, -, -, h, hnum, hroot, -⟩ :=
    execute_create storable_notesName validNotes (by decide)
  have hholds := h.holds
  have hpage : (openTable s 0 notesName).rootPageNum = 1 := hholds.root.symm
  have hfresh : FreshTable s (openTable s 0 notesName) 0 (schemaOf notes validNotes) :=
    ⟨hholds.sound, hholds.find, hholds.describes, hpage ▸ hroot, by rw [hpage]; decide,
      hholds.root_lt⟩
  exact ⟨s, _, hfresh, hpage, hnum, h⟩

/-- The condition `id = m`. -/
def idIs (m : Int64) : Option Expr := some (.equals (.column (ascii "id")) (.literalInt m))

/-- The row is read back. -/
theorem decodeValues_notesCell (k : Int64) :
    decodeValues (schemaOf notes validNotes).types (notesCell k).2 =
      (insertedRow (notesRow k)).values :=
  (matches_notesRow k).decodeValues (textsFit_notesRow k) (areScanned_notesRow k)

/-- The condition on the row with the key `k`. -/
theorem testRow_notesCell {catalog : Page}
    (hfind : catalogNodeFindColumn catalog 0 (ascii "id") = .ok (some 0)) (m k : Int64) :
    testRow (schemaOf notes validNotes) catalog 0 (idIs m) (notesCell k).2 = .ok (m == k) := by
  have hvalue : (decodeValues (schemaOf notes validNotes).types (notesCell k).2)[0]? =
      some (.integer k) := by
    rw [decodeValues_notesCell]
    rfl
  exact testRow_equals hfind hvalue

theorem selected_notesCell {catalog : Page}
    (hfind : catalogNodeFindColumn catalog 0 (ascii "id") = .ok (some 0)) (m k : Int64) :
    selected (schemaOf notes validNotes) catalog 0 (idIs m) (notesCell k) = (m == k) := by
  unfold selected
  rw [testRow_notesCell hfind]

/-- The condition can be tested on such rows. -/
theorem not_faulty_notesCell {catalog : Page}
    (hfind : catalogNodeFindColumn catalog 0 (ascii "id") = .ok (some 0)) (m k : Int64)
    (f : Fault) : ¬ Faulty (schemaOf notes validNotes) catalog 0 (idIs m) f (notesCell k) := by
  unfold Faulty
  rw [testRow_notesCell hfind]
  rintro ⟨⟩

/-- The rows `1` and `2` on two leaves. -/
def twoLeaves : PageTreeAny :=
  ⟨1, .node 1 (.cons (.leaf 3 [notesCell (rowKey 1)]) (rowKey 2)
    (.one (.leaf 2 [notesCell (rowKey 2)])))⟩

/-- The rows `1`, `2` and `3` are inserted, the last of which splits the root. -/
theorem exists_threeRun : ∃ s₀ table s, FreshTable s₀ table 0 (schemaOf notes validNotes) ∧
    OneTable s₀ notesName notes validNotes ⟨0, .leaf 1 []⟩ ∧ TableRun table 0 s₀ s ∧
      Holds s table 0 (schemaOf notes validNotes) (ascending 0) ∧ s.numPages = 4 ∧
      s.page 0 = s₀.page 0 := by
  obtain ⟨s₀, table, h₀, hroot, hnum₀, hone⟩ := exists_freshNotes
  have ht₀ := h₀.holds
  rw [hroot] at ht₀
  -- the root is a leaf with room for two rows
  obtain ⟨s₁, hrun₁, ht₁, hnum₁, hzero₁⟩ := TableRun.insert (Runs.Reached.refl s₀) ht₀
    (matches_notesRow (rowKey 1)) (textsFit_notesRow _) rfl
    (fun a ha => absurd ha List.not_mem_nil) ⟨0, .leaf 1 [notesCell (rowKey 1)]⟩ 2
    (by unfold treeInserted; rw [hnum₀]; rfl) (by decide)
  obtain ⟨s₂, hrun₂, ht₂, hnum₂, hzero₂⟩ := hrun₁.insert ht₁
    (matches_notesRow (rowKey 2)) (textsFit_notesRow _) rfl
    (by decide) ⟨0, .leaf 1 [notesCell (rowKey 1), notesCell (rowKey 2)]⟩ 2
    (by unfold treeInserted; rw [hnum₁]; rfl) (by decide)
  -- the third row splits it
  obtain ⟨s₃, hrun₃, ht₃, hnum₃, hzero₃⟩ := hrun₂.insert ht₂
    (matches_notesRow (rowKey 3)) (textsFit_notesRow _) rfl (by decide) (ascending 0) 4 (by unfold treeInserted; rw [hnum₂]; rfl) (by decide)
  exact ⟨s₀, table, s₃, h₀, hone, hrun₃, ht₃, hnum₃, hzero₃.trans (hzero₂.trans hzero₁)⟩

/-- Then the row `3` is deleted, and the row `2` gets a text. -/
theorem exists_notesRun : ∃ s₀ table s s', FreshTable s₀ table 0 (schemaOf notes validNotes) ∧
    OneTable s₀ notesName notes validNotes ⟨0, .leaf 1 []⟩ ∧ TableRun table 0 s₀ s ∧
      Holds s table 0 (schemaOf notes validNotes) twoLeaves ∧
      updateCommand s table table.tableName [.column [97]] [.literalString [120]]
        (idIs (rowKey 2)) = .ok (⟨.commandSuccess, []⟩, s') ∧
      TableRun table 0 s₀ s' ∧ InternalPage (s'.page table.rootPageNum) [rowKey 2] [3, 2] := by
  obtain ⟨s₀, table, s₃, h₀, hone, hrun₃, ht₃, -, hzero⟩ := exists_threeRun
  have hid : catalogNodeFindColumn (s₃.page 0) 0 (ascii "id") = .ok (some 0) := by
    rw [hzero]
    exact hone.findColumn_id
  have hcontents : ∀ c ∈ (ascending 0).2.contents, ∃ k, c = notesCell k := by
    intro c hc
    have hmem : c ∈ [notesCell (rowKey 1), notesCell (rowKey 2), notesCell (rowKey 3)] := hc
    rcases List.mem_cons.mp hmem with rfl | hmem
    · exact ⟨_, rfl⟩
    rcases List.mem_cons.mp hmem with rfl | hmem
    · exact ⟨_, rfl⟩
    · exact ⟨_, List.mem_singleton.mp hmem⟩
  obtain ⟨s, hrun, ht, hzero'⟩ := hrun₃.delete ht₃ (idIs (rowKey 3)) (by
    intro f c hc
    obtain ⟨k, rfl⟩ := hcontents c hc
    exact not_faulty_notesCell hid _ k f)
  have htwo : (⟨1, (ascending 0).2.mapCells
      (unselected (schemaOf notes validNotes) (s₃.page 0) 0 (idIs (rowKey 3)))⟩ : PageTreeAny) =
      twoLeaves := by
    have hleft : unselected (schemaOf notes validNotes) (s₃.page 0) 0 (idIs (rowKey 3))
        [notesCell (rowKey 1)] = [notesCell (rowKey 1)] := by
      simp only [unselected, List.filter, selected_notesCell hid]
      rfl
    have hright : unselected (schemaOf notes validNotes) (s₃.page 0) 0 (idIs (rowKey 3))
        [notesCell (rowKey 2), notesCell (rowKey 3)] = [notesCell (rowKey 2)] := by
      simp only [unselected, List.filter, selected_notesCell hid]
      rfl
    unfold twoLeaves
    rw [← hleft, ← hright]
    rfl
  have ht' : Holds s table 0 (schemaOf notes validNotes) twoLeaves := by
    rw [← htwo]
    exact ht
  rw [← hzero'] at hid
  have hres : resolveAssignments (s.page 0) 0 ([Expr.column [97]].zip [.literalString [120]]) =
      .ok (.ok [(1, .literalString [120])]) := by
    rw [hzero', hzero]
    exact hone.resolveAssignments_text [120]
  have hlen : [Expr.column [97]].length = [Expr.literalString [120]].length := rfl
  have hfit : TextsFit [.literalString [120]] := textsFit_text (by decide)
  obtain ⟨s', hupdate, hrun', ht''⟩ := hrun.update ht' hlen hres hfit (idIs (rowKey 2)) (by
    intro f c hc
    have hmem : c ∈ [notesCell (rowKey 1), notesCell (rowKey 2)] := hc
    rcases List.mem_cons.mp hmem with rfl | hmem
    · exact not_faulty_notesCell hid _ _ f
    · rw [List.mem_singleton.mp hmem]
      exact not_faulty_notesCell hid _ _ f)
  have hinternal : InternalPage (s'.page 1) [rowKey 2] [3, 2] := ht''.represents.stored.1
  have hroot : table.rootPageNum = 1 := ht'.root.symm
  rw [← hroot] at hinternal
  exact ⟨s₀, table, s, s', h₀, hone, hrun, ht', hupdate, hrun', hinternal⟩

/-! ## What holds in the states reached -/

/-- **The pages hold a B+ tree.** All of its leaves are equally deep by construction; its root is
the page that the table names, and the only page of the tree that is marked as a root. -/
theorem tableRun_tree (h₀ : FreshTable s₀ table n σ) (h : TableRun table n s₀ s) :
    ∃ (height : ℕ) (t : PageTree height), t.page = table.rootPageNum ∧
      Stored s.page σ.rowSize t 0 ∧ t.labels.Nodup ∧
      t.Sized (leafNodeMaxCells σ.rowSize) internalNodeMaxKeys ∧ t.Ordered ⊥ ⊤ ∧
      (∀ q ∈ t.labels, (isRoot (s.page q) = 1 ↔ q = table.rootPageNum)) ∧
      s.page 0 = s₀.page 0 := by
  obtain ⟨⟨⟨height, t⟩, ht⟩, hzero⟩ := h.holds h₀
  have hrep := ht.represents
  refine ⟨height, t, ht.root, hrep.stored, hrep.good.nodup, hrep.good.sized, hrep.good.ordered, ?_,
    hzero⟩
  intro q hq
  constructor
  · intro hroot
    rw [Tree.labels_eq] at hq
    rcases Multiset.mem_add.mp hq with hq | hq
    · exact (Multiset.mem_singleton.mp hq).trans ht.root
    · rw [hrep.stored.isRoot_below q hq] at hroot
      exact absurd hroot (by decide)
  · rintro rfl
    rw [← ht.root]
    exact hrep.root

/-- The root has been split, a row deleted and another one updated. -/
theorem tableRun_tree_notes : ∃ s₀ table s, FreshTable s₀ table 0 (schemaOf notes validNotes) ∧
    TableRun table 0 s₀ s ∧ InternalPage (s.page table.rootPageNum) [rowKey 2] [3, 2] ∧
    ∃ (height : ℕ) (t : PageTree height), t.page = table.rootPageNum ∧
      Stored s.page (schemaOf notes validNotes).rowSize t 0 ∧ t.labels.Nodup ∧
      t.Sized (leafNodeMaxCells (schemaOf notes validNotes).rowSize) internalNodeMaxKeys ∧
      t.Ordered ⊥ ⊤ := by
  obtain ⟨s₀, table, -, s, h₀, -, -, -, -, h, hroot⟩ := exists_notesRun
  obtain ⟨height, t, hpage, hst, hnd, hsized, hord, -⟩ := tableRun_tree h₀ h
  exact ⟨s₀, table, s, h₀, h, hroot, height, t, hpage, hst, hnd, hsized, hord⟩

/-- The pages of a tree: its root, and the children of its internal pages. -/
inductive OnTree (s : Pager) (root : ℕ) : ℕ → Prop
  | root : OnTree s root root
  | child {p c : ℕ} : OnTree s root p → nodeType (s.page p) = nodeInternal →
      c ∈ internalChildren (s.page p) → OnTree s root c

/-- The pages of a stored tree are those of its nodes. -/
theorem OnTree.mem_labels {rowSize next h : ℕ} {t : PageTree h} {q : ℕ}
    (hq : OnTree s t.page q) (hst : Stored s.page rowSize t next) : q ∈ t.labels := by
  induction hq with
  | root => exact Tree.page_mem_labels t
  | child _ htype hc ih => exact hst.mem_labels_of_child ih htype hc

/-! ## The leaf links -/

/-- A `DELETE` tests every row, once, and comes to an end. -/
theorem Holds.delete_walk (h : Holds s table n σ t) (where_ : Option Expr) :
    deleteCommand s table table.tableName where_ ≠ .error .endless ∧
      ∀ r s', deleteCommand s table table.tableName where_ = .ok (r, s') →
        tableCells s' table.rootPageNum σ.rowSize =
          .ok (unselected σ (s.page 0) n where_ t.2.contents) := by
  rcases deleteCommand_spec h where_ with ⟨f, ⟨c, -, hbad⟩, herr⟩ | ⟨-, s₁, hok, -, hev, -, hrep⟩
  · rw [herr]
    constructor
    · rintro ⟨⟩
      rcases hbad.testFault with hf | hf <;> cases hf
    · intro r s' hrun
      cases hrun
  · rw [hok]
    constructor
    · rintro ⟨⟩
    · intro r s' hrun
      cases hrun
      have hcells := hrep.tableCells hev.sound
      rw [Tree.page_mapCells, h.root] at hcells
      exact hcells.trans (congrArg Except.ok (Tree.contents_mapCells_filter _ t.2))

/-- When no row is selected, rewriting the selected rows changes nothing. -/
theorem map_updatedCell_unselected {catalog : Page} {where_ : Option Expr} {as : List (ℕ × Expr)}
    {cells : List Cell} (h : ∀ c ∈ cells, ¬ selected σ catalog n where_ c = true) :
    cells.map (updatedCell σ catalog n where_ as) = cells :=
  (List.map_congr_left fun c hc => if_neg (h c hc)).trans (List.map_id cells)

/-- An `UPDATE` that succeeds has rewritten every selected row, once; one that fails, none; and it
comes to an end. -/
theorem Holds.update_walk (h : Holds s table n σ t) (columns values : List Expr)
    (where_ : Option Expr) :
    updateCommand s table table.tableName columns values where_ ≠ .error .endless ∧
      ∀ o s', updateCommand s table table.tableName columns values where_ = .ok (o, s') →
        (o.result ≠ .commandSuccess →
          tableCells s' table.rootPageNum σ.rowSize = .ok t.2.contents) ∧
        (o.result = .commandSuccess →
          ∃ as, resolveAssignments (s.page 0) n (columns.zip values) = .ok (.ok as) ∧
            tableCells s' table.rootPageNum σ.rowSize =
              .ok (t.2.contents.map (updatedCell σ (s.page 0) n where_ as))) := by
  have hout := updateCommand_spec h columns values where_
  have hkept : ∀ {s'}, Fetched s s' →
      tableCells s' table.rootPageNum σ.rowSize = .ok t.2.contents := by
    intro s' hf
    have h' := h.fetched hf
    have hcells := h'.represents.tableCells h'.sound
    rwa [h.root] at hcells
  cases hrun : updateCommand s table table.tableName columns values where_ with
  | error f =>
    rw [hrun] at hout
    constructor
    · rintro ⟨⟩
      cases hout with
      | unresolved hres => rcases resolveAssignments_fault hres with hf | hf <;> cases hf
      | faulty _ hbad =>
        obtain ⟨c, -, hbad⟩ := hbad
        rcases hbad.testFault with hf | hf <;> cases hf
    · intro r s' hrun
      cases hrun
  | ok p =>
    rw [hrun] at hout
    constructor
    · rintro ⟨⟩
    · intro r s' heq
      cases heq
      cases hout with
      | refused hf => exact ⟨fun _ => hkept hf, fun hr => by cases hr⟩
      | unselected hres hnone hf =>
        refine ⟨fun hr => absurd rfl hr, fun _ => ⟨_, hres, ?_⟩⟩
        rw [map_updatedCell_unselected hnone]
        exact hkept hf
      | updated hres _ _ _ hev _ hrep =>
        have hcells := hrep.tableCells hev.sound
        rw [Tree.page_mapCells, h.root] at hcells
        exact ⟨fun hr => absurd rfl hr, fun _ => ⟨_, hres, hcells.trans
          (congrArg Except.ok (Tree.contents_mapCells_map _ t.2))⟩⟩

/-- **The leaf links run through the leaves of the tree**, and the loops of `UPDATE` and `DELETE`,
which follow them, come to an end and treat every row once. -/
theorem tableRun_chain (h₀ : FreshTable s₀ table n σ) (h : TableRun table n s₀ s) :
    ∃ (height : ℕ) (t : PageTree height), t.page = table.rootPageNum ∧
      Stored s.page σ.rowSize t 0 ∧
      tableLeaves s table.rootPageNum = .ok (t.leaves.map Leaf.page) ∧
      (t.leaves.map Leaf.page).Nodup ∧
      (∀ q, (t.leaves.map Leaf.page).getLast? = some q → nextLeaf (s.page q) = 0) ∧
      tableCells s table.rootPageNum σ.rowSize = .ok t.contents ∧
      (∀ where_, deleteCommand s table table.tableName where_ ≠ .error .endless ∧
        ∀ r s', deleteCommand s table table.tableName where_ = .ok (r, s') →
          tableCells s' table.rootPageNum σ.rowSize =
            .ok (unselected σ (s.page 0) n where_ t.contents)) ∧
      ∀ columns values where_,
        updateCommand s table table.tableName columns values where_ ≠ .error .endless ∧
        ∀ o s', updateCommand s table table.tableName columns values where_ = .ok (o, s') →
          (o.result ≠ .commandSuccess →
            tableCells s' table.rootPageNum σ.rowSize = .ok t.contents) ∧
          (o.result = .commandSuccess →
            ∃ as, resolveAssignments (s.page 0) n (columns.zip values) = .ok (.ok as) ∧
              tableCells s' table.rootPageNum σ.rowSize =
                .ok (t.contents.map (updatedCell σ (s.page 0) n where_ as))) := by
  obtain ⟨⟨⟨height, t⟩, ht⟩, -⟩ := h.holds h₀
  have hrep := ht.represents
  have hleaves := hrep.tableLeaves ht.sound
  have hcells := hrep.tableCells ht.sound
  rw [ht.root] at hleaves hcells
  exact ⟨height, t, ht.root, hrep.stored, hleaves, nodup_leaf_pages hrep.good.nodup,
    fun q hq => hrep.stored.chain.last hq, hcells, ht.delete_walk, ht.update_walk⟩

/-- The chain of the two leaves, and an `UPDATE` of the row on the second one. -/
theorem tableRun_chain_notes : ∃ s₀ table s s', FreshTable s₀ table 0 (schemaOf notes validNotes) ∧
    TableRun table 0 s₀ s ∧ tableLeaves s table.rootPageNum = .ok [3, 2] ∧
      nextLeaf (s.page 2) = 0 ∧
      updateCommand s table table.tableName [.column [97]] [.literalString [120]]
        (idIs (rowKey 2)) = .ok (⟨.commandSuccess, []⟩, s') ∧
      tableCells s' table.rootPageNum (schemaOf notes validNotes).rowSize =
        .ok [notesCell (rowKey 1), (rowKey 2, rowBytes (assigned [(1, .literalString [120])]
          (insertedRow (notesRow (rowKey 2))).values))] := by
  obtain ⟨s₀, table, s, s', h₀, hone, h, ht, hupdate, -⟩ := exists_notesRun
  obtain ⟨height, t, -, -, hleaves, -, hlast, hcells, -, hwalk⟩ := tableRun_chain h₀ h
  -- the tree is the one with the two leaves
  have hleaves' := ht.represents.tableLeaves ht.sound
  have hcells' := ht.represents.tableCells ht.sound
  rw [ht.root] at hleaves' hcells'
  have hpages : t.leaves.map Leaf.page = [3, 2] := Except.ok.inj (hleaves.symm.trans hleaves')
  have hcontents : t.contents = [notesCell (rowKey 1), notesCell (rowKey 2)] :=
    Except.ok.inj (hcells.symm.trans hcells')
  obtain ⟨-, hresult⟩ := hwalk [.column [97]] [.literalString [120]] (idIs (rowKey 2))
  obtain ⟨as, hres, hmapped⟩ := (hresult _ _ hupdate).2 rfl
  refine ⟨s₀, table, s, s', h₀, h, hleaves', hlast 2 (by rw [hpages]; rfl), hupdate, ?_⟩
  -- the row `1` is not selected, and the row `2` gets the text
  have hzero : s.page 0 = s₀.page 0 := (h.holds h₀).2
  have hid := hone.findColumn_id
  rw [hzero, hone.resolveAssignments_text] at hres
  cases hres
  have hsel : selected (schemaOf notes validNotes) (s₀.page 0) 0 (idIs (rowKey 2))
      (notesCell (rowKey 2)) = true := by
    rw [selected_notesCell hid]
    decide
  have hother : ¬ selected (schemaOf notes validNotes) (s₀.page 0) 0 (idIs (rowKey 2))
      (notesCell (rowKey 1)) = true := by
    rw [selected_notesCell hid]
    decide
  rw [hmapped, hcontents, hzero, List.map_cons, List.map_singleton, updatedCell, if_neg hother,
    updatedCell, if_pos hsel, decodeValues_notesCell]
  rfl

end MiniDB
