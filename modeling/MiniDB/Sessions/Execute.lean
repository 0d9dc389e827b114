import MiniDB.Cursors.Reading
import MiniDB.Parsing.Trees
import MiniDB.Sessions.Database

/-!
# One statement on a database

* `AstNode.CanFinish`: an `INSERT` that does not run out of pages half way.
* `Change`: what a statement makes of the tables.
* `execute_change`: **every statement that comes to an end makes one of these changes**, and the
  result is a database again.
-/

namespace MiniDB

open BPlusTree Pager

/-- An `INSERT` does not run out of pages after it has split a leaf; other statements need none that
they could run out of. -/
def AstNode.CanFinish (s : Pager) : AstNode → Prop
  | .insert name values => ∀ n, catalogNodeFindTable (s.page 0) name = .ok (some n) →
      MiniDB.CanFinish s (openTable s n name) n values
  | _ => True

/-- The table that an `INSERT` leaves behind. -/
abbrev TableInfo.inserted (x : TableInfo) (s : Pager) (key : Int64) (row : Row) : TableInfo :=
  ⟨x.schema, (treeInserted s x.schema.types key row x.tree).1⟩

/-- The table that an `UPDATE` leaves behind. -/
abbrev TableInfo.updated (x : TableInfo) (catalog : Page) (n : ℕ) (where_ : Option Expr)
    (as : List (ℕ × Expr)) : TableInfo :=
  ⟨x.schema, ⟨x.tree.1, x.tree.2.mapCells (List.map (updatedCell x.schema catalog n where_ as))⟩⟩

/-- The table that a `DELETE` leaves behind. -/
abbrev TableInfo.deleted (x : TableInfo) (catalog : Page) (n : ℕ) (where_ : Option Expr) :
    TableInfo :=
  ⟨x.schema, ⟨x.tree.1, x.tree.2.mapCells (unselected x.schema catalog n where_)⟩⟩

/-- What a statement makes of the tables. -/
inductive Change (s : Pager) (ts : List TableInfo) (s' : Pager) :
    AstNode → List TableInfo → Prop
  /-- nothing at all -/
  | same {tree : AstNode} : Evolves s s' {q | s.numPages ≤ q} ∅ → Change s ts s' tree ts
  /-- a `CREATE TABLE` that was refused after it had begun to write its entry -/
  | refused {name : List UInt8} {definitions : List ColumnDefinition} :
      (∃ d ∈ definitions, columnNameSize < d.name.length) → s'.numPages = s.numPages + 1 →
      Evolves s s' {q | q = 0 ∨ q = s.numPages} {q | q = 0 ∨ q = s.numPages} →
      (∀ k < catalogNodeTable ts.length, s'.page 0 k = s.page 0 k) →
      Change s ts s' (.createTable name definitions) ts
  | created {name : List UInt8} {definitions : List ColumnDefinition}
      (hv : ValidDefinitions definitions) : Created s name definitions hv s' →
      Change s ts s' (.createTable name definitions)
        (ts ++ [⟨schemaOf definitions hv, ⟨0, .leaf s.numPages []⟩⟩])
  | inserted {name : List UInt8} {values : List Expr} {n : ℕ} {x : TableInfo} {key : Int64} :
      ts[n]? = some x → catalogNodeFindTable (s.page 0) name = .ok (some n) →
      Matches x.schema values → TextsFit values →
      values[x.schema.primaryKey]? = some (.literalInt key) →
      (∀ a ∈ (x.tree.2.leafFor key).cells, a.1 ≠ key) →
      s'.numPages = (treeInserted s x.schema.types key (insertedRow values) x.tree).2 →
      Evolves s s' {q | q ∈ x.tree.2.labels ∨ s.numPages ≤ q}
        (movedPages s (splitPath s (x.tree.2.leafFor key).page x.schema.rowSize)) →
      Change s ts s' (.insert name values) (ts.set n (x.inserted s key (insertedRow values)))
  | updated {name : List UInt8} {columns values : List Expr} {where_ : Option Expr} {n : ℕ}
      {x : TableInfo} {as : List (ℕ × Expr)} :
      ts[n]? = some x → catalogNodeFindTable (s.page 0) name = .ok (some n) →
      resolveAssignments (s.page 0) n (columns.zip values) = .ok (.ok as) →
      Assignable x.schema.types as →
      Evolves s s' {q | q ∈ x.tree.2.labels ∨ s.numPages ≤ q} ∅ →
      Change s ts s' (.updateTable name columns values where_)
        (ts.set n (x.updated (s.page 0) n where_ as))
  | deleted {name : List UInt8} {where_ : Option Expr} {n : ℕ} {x : TableInfo} :
      ts[n]? = some x → catalogNodeFindTable (s.page 0) name = .ok (some n) →
      Evolves s s' {q | q ∈ x.tree.2.labels ∨ s.numPages ≤ q} ∅ →
      Change s ts s' (.deleteTable name where_) (ts.set n (x.deleted (s.page 0) n where_))

variable {s s' : Pager} {ts : List TableInfo} {n : ℕ} {x : TableInfo} {name : List UInt8}
  {where_ : Option Expr} {o : Outcome}

/-! ## The command behind a statement -/

theorem execute_createTable (hfind : catalogNodeFindTable (s.page 0) name = .ok none)
    (definitions : List ColumnDefinition) :
    execute s (.createTable name definitions) = createTable s name definitions := by
  unfold execute
  show (catalogNodeFindTable (s.page 0) name >>= _) = _
  rw [hfind, ok_bind]

theorem execute_createTable_found (hfind : catalogNodeFindTable (s.page 0) name = .ok (some n))
    (definitions : List ColumnDefinition) :
    execute s (.createTable name definitions) =
      .ok (⟨.commandSuccess, [ascii "Table already exists!"]⟩, s) := by
  unfold execute
  show (catalogNodeFindTable (s.page 0) name >>= _) = _
  rw [hfind]
  rfl

theorem execute_insert (hfind : catalogNodeFindTable (s.page 0) name = .ok (some n))
    (values : List Expr) :
    execute s (.insert name values) =
      insertCommand s (openTable s n name) name values := by
  unfold execute
  show (catalogNodeFindTable (s.page 0) name >>= _) = _
  rw [hfind, ok_bind]

theorem execute_update (hfind : catalogNodeFindTable (s.page 0) name = .ok (some n))
    (columns values : List Expr) (where_ : Option Expr) :
    execute s (.updateTable name columns values where_) =
      updateCommand s (openTable s n name) name columns values where_ := by
  unfold execute
  show (catalogNodeFindTable (s.page 0) name >>= _) = _
  rw [hfind, ok_bind]

theorem execute_delete (hfind : catalogNodeFindTable (s.page 0) name = .ok (some n))
    (where_ : Option Expr) :
    execute s (.deleteTable name where_) =
      (deleteCommand s (openTable s n name) name where_).map quiet := by
  unfold execute
  show (catalogNodeFindTable (s.page 0) name >>= _) = _
  rw [hfind, ok_bind]
  dsimp only
  cases deleteCommand s (openTable s n name) name where_ <;> rfl

theorem execute_select (hfind : catalogNodeFindTable (s.page 0) name = .ok (some n))
    (isStar : Bool) (columns : List Expr) (where_ : Option Expr) :
    execute s (.select name isStar columns where_) =
      selectCommand s (openTable s n name) n (.select name isStar columns where_) columns
        where_ := by
  unfold execute
  show (catalogNodeFindTable (s.page 0) name >>= _) = _
  rw [hfind]
  rfl

/-! ## What becomes of the tables -/

/-- The labels of a tree after an insertion. -/
theorem mem_labels_inserted {types : List ColumnType} {key : Int64} {row : Row} {t : PageTreeAny}
    {q : ℕ} (hq : q ∈ (treeInserted s types key row t).1.2.labels) :
    q ∈ t.2.labels ∨ s.numPages ≤ q := by
  rw [(labels_insertRoot _ _).2] at hq
  exact (Multiset.mem_add.mp hq).imp_right fun h => (mem_newLabels.mp h).1

/-- An `INSERT`. -/
theorem Database.insert (h : Database s ts) {values : List Expr}
    (hfind : catalogNodeFindTable (s.page 0) name = .ok (some n))
    (hcan : CanFinish s (openTable s n name) n values)
    (hrun : insertCommand s (openTable s n name) name values = .ok (o, s')) :
    ∃ ts', Change s ts s' (.insert name values) ts' ∧ Database s' ts' := by
  obtain ⟨x, hx, hholds⟩ := h.holds hfind
  obtain ⟨o', s'', hrun', hout⟩ := insertCommand_spec hholds hcan
  obtain ⟨rfl, rfl⟩ : o' = o ∧ s'' = s' := by
    have heq := hrun'.symm.trans hrun
    cases heq
    exact ⟨rfl, rfl⟩
  cases hout with
  | mismatch => exact ⟨ts, .same (Evolves.refl h.sound), h⟩
  | duplicate _ _ _ hf => exact ⟨ts, .same hf.evolves, h.outside (M := ∅) hf.evolves⟩
  | tooLong _ hf => exact ⟨ts, .same hf.evolves, h.outside (M := ∅) hf.evolves⟩
  | noPage _ _ hev => exact ⟨ts, .same hev, h.outside hev⟩
  | inserted hm hfit hkey hnew hnum hev hrep =>
    refine ⟨_, .inserted hx hfind hm hfit hkey hnew hnum hev, h.replace hx hev hrep ?_ ?_⟩
    · exact page_insertRoot _ _
    · exact fun q hq => mem_labels_inserted hq

/-- An `UPDATE`. -/
theorem Database.update (h : Database s ts) {columns values : List Expr}
    (hfind : catalogNodeFindTable (s.page 0) name = .ok (some n))
    (hrun : updateCommand s (openTable s n name) name columns values where_ = .ok (o, s')) :
    ∃ ts', Change s ts s' (.updateTable name columns values where_) ts' ∧ Database s' ts' := by
  obtain ⟨x, hx, hholds⟩ := h.holds hfind
  have hout := updateCommand_spec hholds columns values where_
  have hrun' : updateCommand s (openTable s n name) (openTable s n name).tableName columns values
      where_ = .ok (o, s') := hrun
  rw [hrun'] at hout
  cases hout with
  | refused hf => exact ⟨ts, .same hf.evolves, h.outside (M := ∅) hf.evolves⟩
  | unselected _ _ hf => exact ⟨ts, .same hf.evolves, h.outside (M := ∅) hf.evolves⟩
  | updated hres ha hgood hnum hev _ hrep =>
    have hev' := hev.mono (T := {q | q ∈ x.tree.2.labels ∨ s.numPages ≤ q})
      (fun q hq => Or.inl hq) (Set.Subset.refl ∅)
    refine ⟨_, .updated hx hfind hres ha hev', h.replace hx hev' hrep ?_ ?_⟩
    · exact Tree.page_mapCells _
    · intro q hq
      rw [Tree.labels_mapCells] at hq
      exact Or.inl hq

/-- A `DELETE`. -/
theorem Database.delete (h : Database s ts) {r : CommandResult}
    (hfind : catalogNodeFindTable (s.page 0) name = .ok (some n))
    (hrun : deleteCommand s (openTable s n name) name where_ = .ok (r, s')) :
    ∃ ts', Change s ts s' (.deleteTable name where_) ts' ∧ Database s' ts' := by
  obtain ⟨x, hx, hholds⟩ := h.holds hfind
  have hrun' : deleteCommand s (openTable s n name) (openTable s n name).tableName where_ =
      .ok (r, s') := hrun
  rcases deleteCommand_spec hholds where_ with ⟨f, -, herr⟩ | ⟨-, s'', hok, -, hev, -, hrep⟩
  · rw [hrun'] at herr
    cases herr
  · rw [hrun'] at hok
    cases hok
    have hev' := hev.mono (T := {q | q ∈ x.tree.2.labels ∨ s.numPages ≤ q})
      (fun q hq => Or.inl hq) (Set.Subset.refl ∅)
    refine ⟨_, .deleted hx hfind hev', h.replace hx hev' hrep ?_ ?_⟩
    · exact Tree.page_mapCells _
    · intro q hq
      rw [Tree.labels_mapCells] at hq
      exact Or.inl hq

/-- A `CREATE TABLE` that was carried out adds an empty table. -/
theorem Database.created (h : Database s ts) {definitions : List ColumnDefinition}
    {hv : ValidDefinitions definitions} (hc : Created s name definitions hv s') :
    Database s' (ts ++ [⟨schemaOf definitions hv, ⟨0, .leaf s.numPages []⟩⟩]) := by
  have hrep := hc.represents h.pos
  obtain ⟨hlt, -, hev, -, hentries, hcount, hdesc, hpage⟩ := hc
  rw [h.count] at hlt hentries hcount hdesc hpage
  refine h.append hlt hev hentries hcount ⟨hdesc, hpage, hrep⟩ ?_
  intro q hq
  exact (Multiset.mem_singleton.mp hq).ge

/-- A `CREATE TABLE`. -/
theorem Database.create (h : Database s ts) {definitions : List ColumnDefinition}
    (hv : ValidDefinitions definitions)
    (hrun : createTable s name definitions = .ok (o, s')) :
    ∃ ts', Change s ts s' (.createTable name definitions) ts' ∧ Database s' ts' := by
  have hout := createTable_spec h.sound h.pos name hv
  rw [hrun] at hout
  cases hout with
  | full _ => exact ⟨ts, .same (Evolves.refl h.sound), h⟩
  | refused hlong hnum hev hbytes =>
    rw [h.count] at hbytes
    exact ⟨ts, .refused hlong hnum hev hbytes, h.refused hev (by rw [h.count]; exact hbytes)⟩
  | created _ hc =>
    exact ⟨_, .created hv hc, h.created hc⟩

/-- **Every statement that comes to an end keeps the database.** -/
theorem execute_change (h : Database s ts) {tree : AstNode} {o : Outcome} (hparsed : tree.Parsed)
    (hcan : tree.CanFinish s) (hrun : execute s tree = .ok (o, s')) :
    ∃ ts', Change s ts s' tree ts' ∧ Database s' ts' := by
  unfold execute at hrun
  obtain ⟨found, hfind, hrun⟩ := bind_eq_ok hrun
  cases tree with
  | createTable name definitions =>
    cases found with
    | none =>
      exact h.create hparsed hrun
    | some n =>
      cases hrun
      exact ⟨ts, .same (Evolves.refl h.sound), h⟩
  | insert name values =>
    cases found with
    | none =>
      cases hrun
      exact ⟨ts, .same (Evolves.refl h.sound), h⟩
    | some n =>
      exact h.insert hfind (hcan n hfind) hrun
  | updateTable name columns values where_ =>
    cases found with
    | none =>
      cases hrun
      exact ⟨ts, .same (Evolves.refl h.sound), h⟩
    | some n =>
      exact h.update hfind hrun
  | deleteTable name where_ =>
    cases found with
    | none =>
      cases hrun
      exact ⟨ts, .same (Evolves.refl h.sound), h⟩
    | some n =>
      obtain ⟨⟨r, s₁⟩, hdelete, hrun⟩ := bind_eq_ok hrun
      cases hrun
      exact h.delete hfind hdelete
  | select name isStar columns where_ =>
    cases found with
    | none =>
      cases hrun
      exact ⟨ts, .same (Evolves.refl h.sound), h⟩
    | some n =>
      obtain ⟨x, -, hholds⟩ := h.holds hfind
      have hf := selectCommand_reads hholds hrun
      exact ⟨ts, .same hf.evolves, h.outside (M := ∅) hf.evolves⟩

end MiniDB
