import MiniDB.Lockstep
import MiniDB.Store.Held
import MiniDB.Store.Refusing

/-!
# Statements on a stored store

Every statement does to the pages what it does to the store, prints what it prints there, and fails
where it fails.

* `Feasible`: what the statement and the pages are to be like.
* `Stores.insert`, `Stores.update`, `Stores.delete`, `Stores.create`: one kind of statement each.
* `execute_agree`: **the step lemma**.
-/

namespace MiniDB

open BPlusTree Pager Lockstep

variable {s s' : Pager} {ts : List TableInfo} {st : Store} {n : ℕ} {x : TableInfo}
  {r : Relation} {name : List UInt8} {definitions : List ColumnDefinition} {values : List Expr}
  {tree : AstNode} {t : PageTreeAny} {table : Table} {where_ : Option Expr} {key : Int64}
  {as : List (ℕ × Expr)}

/-- There are as many pages left as the statement takes, and the names have room in their fields. -/
def AstNode.HasRoom (s : Pager) : AstNode → Prop
  | .createTable name definitions => catalogNodeFindTable (s.page 0) name = .ok none →
      s.numPages < tablesMaxPages ∧ name.length < columnNameSize ∧
        ∀ d ∈ definitions, d.name.length < columnNameSize
  | .insert name values => ∀ n, catalogNodeFindTable (s.page 0) name = .ok (some n) →
      MiniDB.HasRoom s (openTable s n name) n values
  | _ => True

/-- The parser returns the statement; it has room, moves only pages that are dirty, and leaves a row
in every leaf but the first. -/
structure Feasible (s : Pager) (tree : AstNode) : Prop where
  parsed : tree.Parsed
  scanned : tree.Scanned
  room : tree.HasRoom s
  moves : tree.MovesDirty s
  leaves : KeepsLeaves s tree

/-- The pages hold the store, in some tables. -/
def Keeps (s : Pager) (st : Store) : Prop := ∃ ts, Stores s ts st

/-- A table in its own place. -/
theorem Store.set_self (hr : st[n]? = some r) : st.set n r = st := by
  obtain ⟨hlt, rfl⟩ := List.getElem?_eq_some_iff.mp hr
  exact List.set_getElem_self hlt

/-- A statement about a table that is found. -/
theorem Store.exec_at (hfind : st.find tree.table = some n) (hr : st[n]? = some r) :
    st.exec tree = st.execAt n r tree := by
  simp only [Store.exec, hfind, hr]

/-! ## `INSERT` -/

namespace Relation

theorem insert_mismatch (hno : ¬ Matches r.schema values) : r.insert values =
    (⟨.failure, [valuesMismatch r.schema.types values]⟩, r) :=
  dif_neg hno

theorem insert_duplicate (hm : Matches r.schema values)
    (hkey : values[r.schema.primaryKey]? = some (.literalInt key))
    (hdup : ∃ row ∈ r.rows, row.1 = key) :
    r.insert values = (⟨.idDuplicateError, [idDuplicated key]⟩, r) := by
  have hno : ¬ ∀ row ∈ r.rows, row.1 ≠ key := by
    push Not
    exact hdup
  simp only [insert, dif_pos hm, hkey, dif_neg hno]

theorem insert_tooLong (hm : Matches r.schema values)
    (hkey : values[r.schema.primaryKey]? = some (.literalInt key))
    (hnew : ∀ row ∈ r.rows, row.1 ≠ key) (hlong : ¬ TextsFit values) :
    r.insert values = (⟨.failure, [textTooLong]⟩, r) := by
  simp only [insert, dif_pos hm, hkey, dif_pos hnew, if_neg hlong]

theorem insert_new (hm : Matches r.schema values)
    (hkey : values[r.schema.primaryKey]? = some (.literalInt key))
    (hnew : ∀ row ∈ r.rows, row.1 ≠ key) (hfit : TextsFit values) :
    r.insert values =
      (⟨.commandSuccess, []⟩, r.add key (insertedRow values).values hnew hm.columnTypes) := by
  simp only [insert, dif_pos hm, hkey, dif_pos hnew, if_pos hfit]

end Relation

/-- A key of the table is one of the relation. -/
theorem Presents.key_iff (h : Presents s table n t r) (key : Int64) :
    (∃ a ∈ (t.2.leafFor key).cells, a.1 = key) ↔ ∃ row ∈ r.rows, row.1 = key := by
  rw [exists_leafFor_iff key h.holds.represents.good.ordered, ← h.rows]
  constructor
  · rintro ⟨c, hc, hkey⟩
    exact ⟨_, List.mem_map_of_mem hc, hkey⟩
  · rintro ⟨row, hrow, hkey⟩
    obtain ⟨c, hc, rfl⟩ := List.mem_map.mp hrow
    exact ⟨c, hc, hkey⟩

/-- A cell is inserted where its row is. -/
theorem map_viewCell_insertCell (σ : Schema) (key : Int64) (bs : List UInt8) (cells : List Cell) :
    (insertCell key bs cells).map (viewCell σ) =
      insertCell key (decodeValues σ.types bs) (cells.map (viewCell σ)) := by
  induction cells with
  | nil => rfl
  | cons c cells ih =>
    rw [insertCell, List.map_cons, insertCell]
    show _ = if key < c.1 then _ else _
    split
    · rfl
    · rw [List.map_cons, ih]

/-- The table with the new row. -/
theorem Implements.inserted (h : Implements x r) (hordered : x.tree.2.Ordered ⊥ ⊤)
    (hm : Matches r.schema values) (hfit : TextsFit values) (hscan : AreScanned values)
    (hnew : ∀ row ∈ r.rows, row.1 ≠ key) :
    Implements (x.inserted s key (insertedRow values))
      (r.add key (insertedRow values).values hnew hm.columnTypes) where
  schema := h.schema
  rows := by
    show (treeInserted s x.schema.types key (insertedRow values) x.tree).1.2.contents.map
      (viewCell r.schema) = insertCell key (insertedRow values).values r.rows
    rw [treeInserted, contents_insertRoot _ hordered, map_viewCell_insertCell, h.rows,
      hm.decodeValues hfit hscan]

/-- **An `INSERT`.** -/
theorem Stores.insert (h : Stores s ts st) (hfind : st.find name = some n) (hr : st[n]? = some r)
    (hok : Feasible s (.insert name values)) :
    ∃ s', insertCommand s (openTable s n name) name values = .ok ((r.insert values).1, s') ∧
      Keeps s' (st.set n (r.insert values).2) := by
  obtain ⟨x, hx, himpl, -, hp⟩ := h.presents hfind hr
  have hfind' : catalogNodeFindTable (s.page 0) name = .ok (some n) := by rw [h.find, hfind]
  have hsame : st.set n r = st := Store.set_self hr
  by_cases hm : Matches r.schema values
  swap
  · rw [Relation.insert_mismatch hm]
    refine ⟨s, insertCommand_mismatch hp.holds hm, ?_⟩
    rw [hsame]
    exact ⟨ts, h⟩
  obtain ⟨key, hkey⟩ := hm.exists_key
  obtain ⟨s₁, hf, hdup, hlong, -⟩ := insertCommand_matches hp.holds hm hkey
  have hfetched : Keeps s₁ (st.set n r) := by
    rw [hsame]
    exact ⟨ts, h.same hf.evolves⟩
  by_cases hex : ∃ row ∈ r.rows, row.1 = key
  · rw [Relation.insert_duplicate hm hkey hex]
    exact ⟨s₁, hdup ((hp.key_iff key).mpr hex), hfetched⟩
  have hnew : ∀ row ∈ r.rows, row.1 ≠ key := fun row hrow heq => hex ⟨row, hrow, heq⟩
  have hnew' : ∀ a ∈ (x.tree.2.leafFor key).cells, a.1 ≠ key := fun a ha heq =>
    hex ((hp.key_iff key).mp ⟨a, ha, heq⟩)
  by_cases hfit : TextsFit values
  swap
  · rw [Relation.insert_tooLong hm hkey hnew hfit]
    exact ⟨s₁, hlong hnew' hfit, hfetched⟩
  obtain ⟨s', hrun, hnum, hev, hrep⟩ :=
    insertCommand_hasRoom hp.holds hm hfit hkey hnew' (hok.room n hfind')
  have hσ := himpl.schema
  have hchange : Change s ts s' (.insert name values) _ :=
    .inserted hx hfind' (hσ ▸ hm) hfit (hσ ▸ hkey) hnew' (hσ ▸ hnum) (hσ ▸ hev)
  have hdb' := h.database.replace hx (hσ ▸ hev) (hσ ▸ hrep) (page_insertRoot _ _)
    fun q hq => mem_labels_inserted hq
  rw [Relation.insert_new hm hkey hnew hfit]
  refine ⟨s', hrun, _, h.replace hx hr hdb' hok.moves hok.leaves hchange
    (h.database.catalog hx hev) ?_ rfl rfl⟩
  exact himpl.inserted hp.holds.represents.good.ordered hm hfit hok.scanned hnew

/-! ## `UPDATE` -/

/-- The steps of an `UPDATE` behind the check of the lengths. -/
theorem Relation.update_eq {columns : List Expr} (hlen : columns.length = values.length)
    (where_ : Option Expr) : r.update columns values where_ =
      (r.resolve (columns.zip values)).bind fun
        | .error line => .ok (⟨.failure, [line]⟩, r)
        | .ok as =>
          if TextsFit (as.map Prod.snd) then (r.check where_ r.rows).bind fun _ =>
            .ok (⟨.commandSuccess, []⟩,
              r.rewrite (r.assign where_ as) (r.columnType_assign where_ as))
          else (r.selectsAny where_ r.rows).map fun found => (searchOutcome found, r) := by
  rw [Relation.update, if_neg (not_not.mpr hlen)]
  cases r.resolve (columns.zip values) with
  | error f => rfl
  | ok found =>
    cases found with
    | error line => rfl
    | ok as =>
      show (if TextsFit (as.map Prod.snd) then _ else _) = ite _ _ _
      split
      · rfl
      · show (r.selectsAny where_ r.rows >>= _) = _
        cases r.selectsAny where_ r.rows with
        | error f => rfl
        | ok b => cases b <;> rfl

/-- The search for a row that is selected. -/
theorem Presents.anyCell (h : Presents s table n t r) (where_ : Option Expr) (cells : List Cell) :
    MiniDB.anyCell (fun c => MiniDB.testRow r.schema (s.page 0) n where_ c.2) cells =
      r.selectsAny where_ (cells.map (viewCell r.schema)) := by
  induction cells with
  | nil => rfl
  | cons c cells ih =>
    rw [MiniDB.anyCell, List.map_cons, Relation.selectsAny, ih, h.testRow]
    rfl

/-- A cell that an `UPDATE` has rewritten. -/
theorem Presents.viewCell_updatedCell (h : Presents s table n t r) (as : List (ℕ × Expr))
    (c : Cell) : viewCell r.schema (updatedCell r.schema (s.page 0) n where_ as c) =
      (c.1, r.assign where_ as (viewCell r.schema c).2) := by
  rw [updatedCell, Relation.assign, ← h.selected]
  split
  · have htypes := (map_columnType_assigned as (decodeValues r.schema.types c.2)).trans
      (map_columnType_decodeValues r.schema.types c.2)
    have hread := decodeValues_rowBytes_stored (assigned as (decodeValues r.schema.types c.2))
    rw [htypes] at hread
    exact Prod.ext rfl hread
  · rfl

/-- A row that cannot be tested fails the check of all rows. -/
theorem Presents.check_fails (h : Presents s table n t r) {f : Fault}
    (hbad : ∃ c ∈ t.2.contents, Faulty r.schema (s.page 0) n where_ f c) :
    ∃ f', r.check where_ r.rows = .error f' := by
  obtain ⟨c, hc, hfaulty⟩ := hbad
  rcases h.check_cases where_ with ⟨-, hgood⟩ | ⟨f', hcheck, -⟩
  · exact absurd hfaulty (hgood f c hc)
  · exact ⟨f', hcheck⟩

theorem Presents.check_ok (h : Presents s table n t r)
    (hgood : ∀ f, ∀ c ∈ t.2.contents, ¬ Faulty r.schema (s.page 0) n where_ f c) :
    r.check where_ r.rows = .ok () := by
  rcases h.check_cases where_ with ⟨hcheck, -⟩ | ⟨f, -, c, hc, hfaulty⟩
  · exact hcheck
  · exact absurd hfaulty (hgood f c hc)

/-- The table with the rows as they are now. -/
theorem Presents.updated (h : Presents s table n x.tree r) (himpl : Implements x r)
    (where_ : Option Expr) (as : List (ℕ × Expr)) :
    Implements (x.updated (s.page 0) n where_ as)
      (r.rewrite (r.assign where_ as) (r.columnType_assign where_ as)) where
  schema := himpl.schema
  rows := by
    show (x.tree.2.mapCells _).contents.map (viewCell r.schema) =
      r.rows.map fun row => (row.1, r.assign where_ as row.2)
    rw [Tree.contents_mapCells_map, ← h.rows, List.map_map, List.map_map, himpl.schema]
    exact List.map_congr_left fun c _ => h.viewCell_updatedCell as c

/-- **An `UPDATE`.** -/
theorem Stores.update (h : Stores s ts st) (hfind : st.find name = some n) (hr : st[n]? = some r)
    {columns : List Expr} (hok : Feasible s (.updateTable name columns values where_)) :
    Agree (fun s' r' => Keeps s' (st.set n r'))
      (updateCommand s (openTable s n name) name columns values where_)
      (r.update columns values where_) := by
  obtain ⟨x, hx, himpl, -, hp⟩ := h.presents hfind hr
  have hfind' : catalogNodeFindTable (s.page 0) name = .ok (some n) := by rw [h.find, hfind]
  have hlen := hok.parsed.2
  have hread : ∀ s', Fetched s s' → Keeps s' (st.set n r) := fun s' hf => by
    rw [Store.set_self hr]
    exact ⟨ts, h.same hf.evolves⟩
  have hrefuse := hp.resolve (columns.zip values)
  rw [Relation.update_eq hlen]
  cases hres : r.resolve (columns.zip values) with
  | error f =>
    have hrun : updateCommand s (openTable s n name) name columns values where_ = .error f :=
      hp.holds.updateCommand_unresolved hlen (hrefuse.trans hres) where_
    rw [hrun]
    exact .fail f f
  | ok found =>
    cases found with
    | error line =>
      have hrun : updateCommand s (openTable s n name) name columns values where_ =
          .ok (⟨.failure, [line]⟩, s) :=
        hp.holds.updateCommand_refused hlen (hrefuse.trans hres) where_
      rw [hrun]
      exact .step (hread s (Fetched.refl h.database.sound))
    | ok as =>
      have hres' := hrefuse.trans hres
      by_cases hfit : TextsFit (as.map Prod.snd)
      · show Agree _ _ (ite _ _ _)
        rw [if_pos hfit]
        rcases updateCommand_fits hp.holds hlen hres' where_ fun _ _ => hfit with
          ⟨f, hbad, hrun⟩ | ⟨hgood, s', hrun, -, hev, -, hrep⟩
        · obtain ⟨f', hcheck⟩ := hp.check_fails hbad
          have hrun' : updateCommand s (openTable s n name) name columns values where_ =
              .error f := hrun
          rw [hrun', hcheck]
          exact .fail f f'
        · rw [hp.check_ok hgood]
          have hrun' : updateCommand s (openTable s n name) name columns values where_ =
              .ok (⟨.commandSuccess, []⟩, s') := hrun
          rw [hrun']
          have hσ := himpl.schema
          have ha := (resolveAssignments_checked hres').assignable hp.holds.describes
          have hev' := hev.mono (T := {q | q ∈ x.tree.2.labels ∨ s.numPages ≤ q})
            (fun q hq => Or.inl hq) (Set.Subset.refl ∅)
          have hchange : Change s ts s' (.updateTable name columns values where_) _ :=
            .updated hx hfind' hres' (hσ ▸ ha) hev'
          have hdb' := h.database.replace hx hev' (hσ ▸ hrep) (Tree.page_mapCells _) fun q hq => by
            rw [Tree.labels_mapCells] at hq
            exact Or.inl hq
          refine .step ⟨_, h.replace hx hr hdb' hok.moves hok.leaves hchange
            (h.database.catalog hx hev') ?_ rfl rfl⟩
          exact hp.updated himpl where_ as
      · show Agree _ _ (ite _ _ _)
        rw [if_neg hfit]
        obtain ⟨s', hf, hrun⟩ := hp.holds.updateCommand_search hlen hres' hfit where_
        rw [hp.anyCell, hp.rows] at hrun
        have hrun' : updateCommand s (openTable s n name) name columns values where_ =
            (r.selectsAny where_ r.rows).map fun found => (searchOutcome found, s') := hrun
        rw [hrun']
        cases r.selectsAny where_ r.rows with
        | error f => exact .fail f f
        | ok found => exact .step (hread s' hf)

/-! ## `DELETE` -/

/-- The table with the rows that stay. -/
theorem Presents.deleted (h : Presents s table n x.tree r) (himpl : Implements x r)
    (where_ : Option Expr) : Implements (x.deleted (s.page 0) n where_)
      (r.keep fun vs => ! r.selects where_ vs) where
  schema := himpl.schema
  rows := by
    show (x.tree.2.mapCells _).contents.map (viewCell r.schema) =
      r.rows.filter fun row => ! r.selects where_ row.2
    unfold unselected
    rw [Tree.contents_mapCells_filter, ← h.rows, List.filter_map, himpl.schema]
    refine congrArg (List.map _) (List.filter_congr fun c _ => ?_)
    rw [h.selected]
    rfl

/-- **A `DELETE`.** -/
theorem Stores.delete (h : Stores s ts st) (hfind : st.find name = some n) (hr : st[n]? = some r)
    (hok : Feasible s (.deleteTable name where_)) :
    Agree (fun s' r' => Keeps s' (st.set n r'))
      ((deleteCommand s (openTable s n name) name where_).map quiet) (r.delete where_) := by
  obtain ⟨x, hx, himpl, -, hp⟩ := h.presents hfind hr
  have hfind' : catalogNodeFindTable (s.page 0) name = .ok (some n) := by rw [h.find, hfind]
  rw [Relation.delete]
  rcases deleteCommand_spec hp.holds where_ with
    ⟨f, hbad, hrun⟩ | ⟨hgood, s', hrun, -, hev, -, hrep⟩
  · obtain ⟨f', hcheck⟩ := hp.check_fails hbad
    have hrun' : deleteCommand s (openTable s n name) name where_ = .error f := hrun
    rw [hrun', hcheck]
    exact .fail f f'
  · have hrun' : deleteCommand s (openTable s n name) name where_ = .ok (.commandSuccess, s') :=
      hrun
    rw [hrun', hp.check_ok hgood]
    have hσ := himpl.schema
    have hev' := hev.mono (T := {q | q ∈ x.tree.2.labels ∨ s.numPages ≤ q})
      (fun q hq => Or.inl hq) (Set.Subset.refl ∅)
    have hchange : Change s ts s' (.deleteTable name where_) _ := .deleted hx hfind' hev'
    have hdb' := h.database.replace hx hev' (hσ ▸ hrep) (Tree.page_mapCells _) fun q hq => by
      rw [Tree.labels_mapCells] at hq
      exact Or.inl hq
    exact .step ⟨_, h.replace hx hr hdb' hok.moves hok.leaves hchange
      (h.database.catalog hx hev') (hp.deleted himpl where_) rfl rfl⟩

/-! ## `CREATE TABLE` -/

/-- **A `CREATE TABLE`** of a table that is not there. -/
theorem Stores.create (h : Stores s ts st) (hfind : st.find name = none)
    (hok : Feasible s (.createTable name definitions)) :
    ∃ s', createTable s name definitions =
        .ok ((st.execNew (.createTable name definitions)).1, s') ∧
      Keeps s' (st.execNew (.createTable name definitions)).2 := by
  obtain ⟨hpages, hname, hnames⟩ := hok.room ((h.find name).trans (congrArg _ hfind))
  have hv : ValidDefinitions definitions := hok.parsed
  have hcount : catalogNodeNumTables (s.page 0) = st.length := h.database.count.trans h.length
  have hout := createTable_spec h.database.sound h.database.pos name hv
  rw [Store.execNew]
  generalize hrun : createTable s name definitions = run at hout
  cases hout with
  | full hfull =>
    rw [dif_neg fun hlt => absurd hlt.2 (not_lt.mpr (hcount ▸ hfull))]
    exact ⟨s, rfl, ts, h⟩
  | noPage hno => exact absurd hpages (not_lt.mpr hno)
  | overrun hover =>
    have hbounded := h.database.bounded
    rw [h.database.count, catalogNodeTable_eq] at hover
    simp only [maxCatalogTables, columnNameSize, pageSize, tableNameOffset] at *
    omega
  | refused hlong =>
    obtain ⟨d, hd, hlong⟩ := hlong
    exact absurd (hnames d hd) (by omega)
  | @created s' _ hc =>
    have hroom := hc.room
    rw [dif_pos ⟨hv, hcount ▸ hroom⟩]
    exact ⟨s', rfl, _, h.created hc hok.scanned hname hnames⟩

/-! ## Every statement -/

/-- A statement about a table that is not there, other than a `CREATE TABLE`. -/
theorem execute_none (hfind : catalogNodeFindTable (s.page 0) tree.table = .ok none)
    (hno : ∀ name definitions, tree ≠ .createTable name definitions) :
    execute s tree = .ok (⟨.commandSuccess, [ascii "Table is not found"]⟩, s) := by
  unfold execute
  rw [hfind, ok_bind]
  cases tree with
  | createTable name definitions => exact absurd rfl (hno name definitions)
  | insert | updateTable | deleteTable | select => rfl

/-- A command, and the statement on the table. -/
theorem agree_put {run : Exec (Outcome × Pager)} {run' : Exec (Outcome × Relation)}
    (h : Agree (fun s' r' => Keeps s' (st.set n r')) run run') :
    Agree Keeps run (run'.map fun r => st.put n r) := by
  cases h with
  | fail f f' => exact .fail f f'
  | step hkeeps => exact .step hkeeps

theorem Stores.execute_create (h : Stores s ts st) (hfind : st.find name = none)
    (hok : Feasible s (.createTable name definitions)) :
    Agree Keeps (execute s (.createTable name definitions))
      (.ok (st.execNew (.createTable name definitions)) : Exec (Outcome × Store)) := by
  obtain ⟨s', hrun, hkeeps⟩ := h.create hfind hok
  rw [execute_createTable ((h.find name).trans (congrArg _ hfind)), hrun,
    ← Prod.eta (st.execNew _)]
  exact .step hkeeps

theorem Stores.execute_insert (h : Stores s ts st) (hfind : st.find name = some n)
    (hr : st[n]? = some r) (hok : Feasible s (.insert name values)) :
    Agree Keeps (execute s (.insert name values)) (st.execAt n r (.insert name values)) := by
  obtain ⟨s', hrun, hkeeps⟩ := h.insert hfind hr hok
  rw [MiniDB.execute_insert ((h.find name).trans (congrArg _ hfind)), hrun]
  exact .step hkeeps

/-- What a `SELECT` prints. -/
theorem Stores.execute_select (h : Stores s ts st) (hfind : st.find name = some n)
    (hr : st[n]? = some r) (isStar : Bool) (columns : List Expr) (where_ : Option Expr) :
    Agree Keeps (execute s (.select name isStar columns where_))
      ((r.select name columns where_).map fun out => (⟨.commandSuccess, out⟩, st)) := by
  obtain ⟨x, -, -, hfilled, hp⟩ := h.presents hfind hr
  rw [MiniDB.execute_select ((h.find name).trans (congrArg _ hfind))]
  show Agree _ _ ((r.select (openTable s n name).tableName columns where_).map _)
  rcases hp.select hfilled name isStar columns where_ with
    ⟨f, f', hrun, hselect⟩ | ⟨out, s', hrun, hselect, hf⟩
  · rw [hrun, hselect]
    exact .fail f f'
  · rw [hrun, hselect]
    exact .step ⟨ts, h.same hf.evolves⟩

/-- A statement about a table that is there. -/
theorem Stores.executeAt (h : Stores s ts st) (hfind : st.find tree.table = some n)
    (hr : st[n]? = some r) (hok : Feasible s tree) :
    Agree Keeps (execute s tree) (st.execAt n r tree) := by
  have hfound := (h.find tree.table).trans (congrArg _ hfind)
  cases tree with
  | createTable name definitions =>
    have hrun : execute s (.createTable name definitions) =
        .ok (⟨.commandSuccess, [ascii "Table already exists!"]⟩, s) :=
      execute_createTable_found hfound definitions
    rw [hrun]
    exact .step ⟨ts, h⟩
  | insert name values => exact h.execute_insert hfind hr hok
  | updateTable name columns values where_ =>
    have hrun : execute s (.updateTable name columns values where_) = _ :=
      execute_update hfound columns values where_
    rw [hrun]
    exact agree_put (h.update hfind hr hok)
  | deleteTable name where_ =>
    have hrun : execute s (.deleteTable name where_) = _ := execute_delete hfound where_
    rw [hrun]
    exact agree_put (h.delete hfind hr hok)
  | select name isStar columns where_ => exact h.execute_select hfind hr isStar columns where_

/-- **The step lemma**: a statement shows what it shows in the store, and leaves pages behind that
hold the store it leaves behind there. -/
theorem execute_agree (h : Keeps s st) (hok : Feasible s tree) :
    Agree Keeps (execute s tree) (st.exec tree) := by
  obtain ⟨ts, h⟩ := h
  rw [Store.exec]
  cases hfind : st.find tree.table with
  | some n =>
    have hr := List.getElem?_eq_getElem (Store.find_lt hfind)
    simp only [hr]
    exact h.executeAt hfind hr hok
  | none =>
    have hfind' : catalogNodeFindTable (s.page 0) tree.table = .ok none := by rw [h.find, hfind]
    cases tree with
    | createTable name definitions => exact h.execute_create hfind hok
    | insert | updateTable | deleteTable | select =>
      have hrun := execute_none hfind' (by rintro _ _ ⟨⟩)
      rw [hrun]
      exact .step ⟨ts, h⟩

end MiniDB
