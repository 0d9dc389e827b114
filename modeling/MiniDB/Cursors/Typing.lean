import MiniDB.Cursors.Plans
import MiniDB.Parsing.Trees
import MiniDB.Statements.Typing
import MiniDB.Statements.UpdateFailure

/-!
# Which members a `SELECT` reads

* `TypeSafe`: a computation that reads no member of another type.
* `TypeSafe.cursorNext`, `TypeSafe.drain`: **the cursors over readable conditions are such**,
  whatever the pages hold.
* `Delivers.drain_selecting_filter`: a filter stumbles over the first row that it tests.
* `Holds.selectCommand_union_iff`: **when a `SELECT` reads a member of another type**.
-/

namespace MiniDB

open BPlusTree Pager

/-- The computation reads no member of another type, and what it gives satisfies `P`. -/
def TypeSafe {α : Type} (x : Exec α) (P : α → Prop) : Prop :=
  match x with
  | .ok a => P a
  | .error f => f ≠ .unionMember

namespace TypeSafe

variable {α β : Type} {x : Exec α} {g : α → Exec β} {P P' : α → Prop} {Q : β → Prop}

theorem bind (hx : TypeSafe x P) (hg : ∀ a, x = .ok a → P a → TypeSafe (g a) Q) :
    TypeSafe (x >>= g) Q := by
  cases x with
  | ok a => exact hg a rfl hx
  | error f => exact hx

theorem mono (hx : TypeSafe x P) (h : ∀ a, P a → P' a) : TypeSafe x P' := by
  cases x with
  | ok a => exact h a hx
  | error f => exact hx

theorem of_fault (h : ∀ f, x = .error f → f ≠ .unionMember) : TypeSafe x fun _ => True := by
  cases x with
  | ok a => trivial
  | error f => exact h f rfl

theorem ne (hx : TypeSafe x P) : x ≠ .error .unionMember := by
  rintro rfl
  exact hx rfl

end TypeSafe

variable {s : Pager} {table : Table} {catalog : Page} {n : ℕ} {σ : Schema} {t : PageTreeAny}
  {name : List UInt8} {value condition : Expr} {where_ : Option Expr} {columns : List Expr}
  {row : Row} {rows : List Row} {cursor child : Cursor} {k rowSize : ℕ}

/-! ## Names -/

theorem TypeSafe.nameEquals (name field : List UInt8) :
    TypeSafe (MiniDB.nameEquals name field) fun _ => True := by
  refine TypeSafe.of_fault ?_
  rintro f hf rfl
  exact absurd (nameEquals_fault hf) (by decide)

theorem TypeSafe.findFirst {test : ℕ → Exec Bool} (is : List ℕ)
    (htest : ∀ i, TypeSafe (test i) fun _ => True) :
    TypeSafe (MiniDB.findFirst test is) fun _ => True := by
  induction is with
  | nil => trivial
  | cons i is ih =>
    refine (htest i).bind ?_
    rintro (_ | _) - -
    · exact ih
    · trivial

theorem TypeSafe.findTable (catalog : Page) (name : List UInt8) :
    TypeSafe (MiniDB.findTable catalog name) fun _ => True := by
  refine (TypeSafe.findFirst _ fun i => TypeSafe.nameEquals name _).bind ?_
  rintro (_ | n) - -
  · exact fun h => by cases h
  · trivial

theorem TypeSafe.columnExists (catalog : Page) (n : ℕ) (name : List UInt8) :
    TypeSafe (MiniDB.columnExists catalog n (.column name)) fun _ => True := by
  refine (TypeSafe.findFirst _ fun i => TypeSafe.nameEquals name _).bind ?_
  exact fun _ _ _ => trivial

theorem TypeSafe.missingColumns (catalog : Page) (table : Table) (n : ℕ)
    (h : AreColumns columns) :
    TypeSafe (MiniDB.missingColumns catalog table n columns) fun _ => True := by
  induction columns with
  | nil => trivial
  | cons column columns ih =>
    obtain ⟨name, rfl⟩ := h column List.mem_cons_self
    refine (TypeSafe.columnExists catalog n name).bind ?_
    rintro (_ | _) - -
    · trivial
    · exact ih fun e he => h e (List.mem_cons_of_mem _ he)

/-! ## Rows -/

/-- The values of the row have the types of the columns. -/
def RowTyped (catalog : Page) (n : ℕ) (row : Row) : Prop :=
  row.values.map (fun v => v.columnType.toByte) = storedTypes catalog n

theorem TypeSafe.deserializeRow (hfind : MiniDB.findTable (s.page 0) table.tableName = .ok n)
    (page : Page) (source : ℕ) :
    TypeSafe (MiniDB.deserializeRow s table page source) (RowTyped (s.page 0) n) := by
  unfold MiniDB.deserializeRow
  rw [hfind]
  have hvalues : ∀ (ts : List UInt8) (offset : ℕ),
      TypeSafe (deserializeValues page ts offset) fun _ => True := by
    intro ts
    induction ts with
    | nil => exact fun _ => trivial
    | cons t ts ih =>
      intro offset
      have hvalue : TypeSafe (deserializeValue page t offset) fun _ => True := by
        unfold deserializeValue
        split_ifs <;> first | trivial | exact fun h => by cases h
      refine hvalue.bind fun v _ _ => ?_
      exact (ih _).bind fun vs _ _ => trivial
  refine (hvalues (storedTypes (s.page 0) n) source).bind ?_
  intro vs hvs _
  exact deserializeValues_types hvs

theorem TypeSafe.rowMatchesWhere (hrow : RowTyped catalog n row)
    (hpos : 0 < catalogNodeColumnCount catalog n) (hread : Readable catalog n where_) :
    TypeSafe (MiniDB.rowMatchesWhere where_ row catalog n) fun _ => True := by
  refine TypeSafe.of_fault ?_
  rintro f hf rfl
  exact (rowMatchesWhere_union_iff hrow hpos).mp hf hread

theorem TypeSafe.projectRow (catalog : Page) (n : ℕ) (row : Row) (h : AreColumns columns) :
    TypeSafe (MiniDB.projectRow catalog n row columns) fun _ => True := by
  induction columns with
  | nil => trivial
  | cons column columns ih =>
    obtain ⟨name, rfl⟩ := h column List.mem_cons_self
    have hcolumn : ∀ (vs : List Value) (j : ℕ),
        TypeSafe (projectColumn catalog n (.column name) j vs) fun _ => True := by
      intro vs
      induction vs with
      | nil => exact fun _ h => by cases h
      | cons v vs ihv =>
        intro j
        refine (TypeSafe.nameEquals name _).bind ?_
        rintro (_ | _) - -
        · exact ihv _
        · trivial
    refine (hcolumn row.values 0).bind fun v _ _ => ?_
    exact (ih fun e he => h e (List.mem_cons_of_mem _ he)).bind fun vs _ _ => trivial

theorem TypeSafe.printRows (rows : List Row) :
    TypeSafe (MiniDB.printRows rows) fun _ => True := by
  have hvalues : ∀ vs : List Value, TypeSafe (printValues vs) fun _ => True := by
    intro vs
    induction vs with
    | nil => trivial
    | cons v vs ih =>
      have hvalue : TypeSafe (printValue v) fun _ => True := by
        refine TypeSafe.of_fault ?_
        rintro f hf rfl
        cases v with
        | integer m => cases hf
        | boolean b => cases hf
        | text field length =>
          obtain hf | ⟨m, -, hf⟩ := bind_eq_error hf
          · exact absurd (strlen_fault hf) (by decide)
          · cases hf
      refine hvalue.bind fun text _ _ => ?_
      exact ih.bind fun _ _ _ => trivial
  induction rows with
  | nil => trivial
  | cons row rows ih =>
    refine (hvalues row.values).bind fun text _ _ => ?_
    exact ih.bind fun _ _ _ => trivial

/-! ## Cursors -/

/-- The cursor delivers rows as they are stored. -/
def Cursor.Whole : Cursor → Prop
  | .tableScan _ _ _ _ => True
  | .pkLookup _ _ _ _ => True
  | .filter child _ => child.Whole
  | .projection _ _ => False

/-- The cursor tests only readable conditions on stored rows, and selects columns. -/
def Cursor.Typed (catalog : Page) (n : ℕ) : Cursor → Prop
  | .tableScan _ _ _ _ => True
  | .pkLookup _ _ _ _ => True
  | .filter child condition => child.Typed catalog n ∧ child.Whole ∧
      Readable catalog n (some condition)
  | .projection child columns => child.Typed catalog n ∧ AreColumns columns

theorem TypeSafe.firstLeaf (fuel k : ℕ) (s : Pager) :
    TypeSafe (MiniDB.firstLeaf fuel s k) fun r => r.2.page = s.page := by
  induction fuel generalizing s k with
  | zero => exact fun h => by cases h
  | succ fuel ih =>
    rw [MiniDB.firstLeaf]
    split
    · split
      · exact rfl
      next hget => exact (ih _ _).mono fun r hr => hr.trans (page_pagerGetPage hget)
    · exact rfl

theorem TypeSafe.leafNodeForKey (key : Int64) (fuel k : ℕ) (s : Pager) :
    TypeSafe (MiniDB.leafNodeForKey key fuel s k) fun r => r.2.page = s.page := by
  induction fuel generalizing s k with
  | zero => exact fun h => by cases h
  | succ fuel ih =>
    rw [MiniDB.leafNodeForKey]
    split
    · exact rfl
    · dsimp only
      split
      · exact rfl
      next hget => exact (ih _ _).mono fun r hr => hr.trans (page_pagerGetPage hget)

/-- What a call leaves behind: the pages as they were, a cursor of the same kind, and a row with the
types of the columns, unless it was projected. -/
def CallTyped (s : Pager) (n : ℕ) (cursor : Cursor) (r : CursorResult) : Prop :=
  r.2.2.page = s.page ∧ r.2.1.Typed (s.page 0) n ∧
    (cursor.Whole → r.2.1.Whole ∧ ∀ row, r.1 = some row → RowTyped (s.page 0) n row)

theorem TypeSafe.tableScanNext (hfind : MiniDB.findTable (s.page 0) table.tableName = .ok n)
    (q cellNum rowSize : ℕ) (done : Bool) :
    TypeSafe (MiniDB.tableScanNext s table q cellNum rowSize done)
      (CallTyped s n (.tableScan q cellNum rowSize done)) := by
  -- reading a row from a page of a state that shows the same bytes
  have hread : ∀ {s' : Pager}, s'.page = s.page → ∀ page source cursor,
      cursor.Typed (s.page 0) n → cursor.Whole →
      TypeSafe (MiniDB.deserializeRow s' table page source >>= fun row =>
        (.ok (some row, cursor, s') : Exec CursorResult))
          (CallTyped s n (.tableScan q cellNum rowSize done)) := by
    intro s' hpage page source cursor htyped hwhole
    have hfind' : MiniDB.findTable (s'.page 0) table.tableName = .ok n := by rw [hpage]; exact hfind
    have hrow := TypeSafe.deserializeRow hfind' page source
    refine hrow.bind fun row _ hrow' => ⟨hpage, htyped, fun _ => ⟨hwhole, ?_⟩⟩
    rintro _ ⟨⟩
    rwa [hpage] at hrow'
  have hnone : ∀ {s' : Pager} (cursor : Cursor), s'.page = s.page → cursor.Typed (s.page 0) n →
      cursor.Whole → CallTyped s n (.tableScan q cellNum rowSize done) (none, cursor, s') :=
    fun _ hpage htyped hwhole => ⟨hpage, htyped, fun _ => ⟨hwhole, by rintro _ ⟨⟩⟩⟩
  unfold MiniDB.tableScanNext
  dsimp only
  split
  · exact hnone _ rfl trivial trivial
  · split
    next s₁ hget =>
      have hpage₁ := page_pagerGetPage hget
      generalize (if nodeType (s₁.page q) = nodeInternal then 0 else cellNum) = c
      refine (TypeSafe.firstLeaf walkFuel q s₁).bind ?_
      rintro ⟨_ | leaf, s₂⟩ - hpage
      · exact hnone (.tableScan _ _ _ _) (hpage.trans hpage₁) trivial trivial
      · have hpage₂ := hpage.trans hpage₁
        dsimp only
        split
        · split
          · exact hnone (.tableScan _ _ _ _) hpage₂ trivial trivial
          · split
            next s₃ hget' =>
              exact hread ((page_pagerGetPage hget').trans hpage₂) _ _ (.tableScan _ _ _ _) trivial
                trivial
            · exact hnone (.tableScan _ _ _ _) hpage₂ trivial trivial
        · exact hread hpage₂ _ _ (.tableScan _ _ _ _) trivial trivial
    · exact hnone (.tableScan _ _ _ _) rfl trivial trivial

theorem TypeSafe.pkLookupNext (hfind : MiniDB.findTable (s.page 0) table.tableName = .ok n)
    (root : ℕ) (key : Int64) (rowSize : ℕ) (done : Bool) :
    TypeSafe (MiniDB.pkLookupNext s table root key rowSize done)
      (CallTyped s n (.pkLookup root key rowSize done)) := by
  have hnone : ∀ {s' : Pager} {cursor : Cursor}, s'.page = s.page → cursor.Typed (s.page 0) n →
      cursor.Whole → CallTyped s n (.pkLookup root key rowSize done) (none, cursor, s') :=
    fun hpage htyped hwhole => ⟨hpage, htyped, fun _ => ⟨hwhole, by rintro _ ⟨⟩⟩⟩
  unfold MiniDB.pkLookupNext
  split
  · exact hnone rfl trivial trivial
  · split
    next s₁ hget =>
      have hpage₁ := page_pagerGetPage hget
      refine (TypeSafe.leafNodeForKey key walkFuel root s₁).bind ?_
      rintro ⟨_ | leaf, s₂⟩ - hpage
      · exact fun h => by cases h
      · have hpage₂ := hpage.trans hpage₁
        dsimp only
        split
        · exact hnone hpage₂ trivial trivial
        · have hfind' : MiniDB.findTable (s₂.page 0) table.tableName = .ok n := by
            rw [hpage₂]
            exact hfind
          have hrow := TypeSafe.deserializeRow hfind' (s₂.page leaf)
            (leafNodeValue (leafNodeFind (s₂.page leaf) key rowSize) rowSize)
          refine hrow.bind fun row _ hrow' => ⟨hpage₂, trivial, fun _ => ⟨trivial, ?_⟩⟩
          rintro _ ⟨⟩
          rwa [hpage₂] at hrow'
    · exact hnone rfl trivial trivial

/-- **A call of a cursor** whose conditions are readable reads no member of another type. -/
theorem TypeSafe.cursorNext (hfind : MiniDB.findTable (s.page 0) table.tableName = .ok n)
    (hpos : 0 < catalogNodeColumnCount (s.page 0) n) (fuel : ℕ)
    (hc : cursor.Typed (s.page 0) n) :
    TypeSafe (MiniDB.cursorNext table fuel cursor s) (CallTyped s n cursor) := by
  induction fuel generalizing cursor s with
  | zero => exact fun h => by cases h
  | succ fuel ih =>
    cases cursor with
    | tableScan q cellNum rowSize done => exact TypeSafe.tableScanNext hfind q cellNum rowSize done
    | pkLookup root key rowSize done => exact TypeSafe.pkLookupNext hfind root key rowSize done
    | filter child condition =>
      obtain ⟨hchild, hwhole, hread⟩ := hc
      rw [MiniDB.cursorNext, hfind]
      refine (ih hfind hpos hchild).bind ?_
      rintro ⟨_ | row, child', s₁⟩ - ⟨hpage, htyped, hrows⟩
      · exact ⟨hpage, ⟨htyped, (hrows hwhole).1, hread⟩,
          fun _ => ⟨(hrows hwhole).1, by rintro _ ⟨⟩⟩⟩
      · obtain ⟨hwhole', hrow⟩ := hrows hwhole
        have htyped' : (Cursor.filter child' condition).Typed (s.page 0) n :=
          ⟨htyped, hwhole', hread⟩
        have htest := TypeSafe.rowMatchesWhere (hrow row rfl) hpos hread
        rw [← hpage] at htest htyped' hfind hpos
        refine htest.bind ?_
        rintro (_ | _) - -
        · refine (ih hfind hpos htyped').mono ?_
          rintro r ⟨hpage', htyped'', hrows'⟩
          rw [hpage] at hpage' htyped''
          refine ⟨hpage', htyped'', fun _ => ?_⟩
          rw [← hpage]
          exact hrows' hwhole'
        · rw [hpage] at htyped'
          exact ⟨hpage, htyped', fun _ => ⟨hwhole', by rintro _ ⟨⟩; exact hrow row rfl⟩⟩
    | projection child columns =>
      obtain ⟨hchild, hcolumns⟩ := hc
      rw [MiniDB.cursorNext]
      refine (ih hfind hpos hchild).bind ?_
      rintro ⟨_ | row, child', s₁⟩ - ⟨hpage, htyped, -⟩
      · exact ⟨hpage, ⟨htyped, hcolumns⟩, fun hno => hno.elim⟩
      · refine (TypeSafe.findTable (s₁.page 0) table.tableName).bind fun m _ _ => ?_
        refine (TypeSafe.projectRow (s₁.page 0) m row hcolumns).bind fun values _ _ => ?_
        exact ⟨hpage, ⟨htyped, hcolumns⟩, fun hno => hno.elim⟩

/-- **Draining such a cursor** reads no member of another type. -/
theorem TypeSafe.drain (hfind : MiniDB.findTable (s.page 0) table.tableName = .ok n)
    (hpos : 0 < catalogNodeColumnCount (s.page 0) n) (fuel : ℕ)
    (hc : cursor.Typed (s.page 0) n) :
    TypeSafe (MiniDB.drain table fuel cursor s) fun _ => True := by
  induction fuel generalizing cursor s with
  | zero => exact fun h => by cases h
  | succ fuel ih =>
    rw [MiniDB.drain]
    refine (TypeSafe.cursorNext hfind hpos scanFuel hc).bind ?_
    rintro ⟨_ | row, cursor', s₁⟩ - ⟨hpage, htyped, -⟩
    · trivial
    · rw [← hpage] at hfind hpos htyped
      exact (ih hfind hpos htyped).bind fun _ _ _ => trivial

/-! ## The first call -/

/-- The cursor under the column list of a `SELECT`. -/
def selecting (columns : List Expr) (cursor : Cursor) : Cursor :=
  if columns.length > 0 then .projection cursor columns else cursor

/-- A cursor without rows. -/
theorem Delivers.drain_selecting_nil (h : Delivers table k cursor s []) (hk : k < scanFuel)
    (columns : List Expr) :
    ∃ s', MiniDB.drain table scanFuel (selecting columns cursor) s = .ok ([], s') := by
  cases h with
  | @done _ cursor' _ s' hnext hf =>
    refine ⟨s', ?_⟩
    obtain ⟨fuel, hfuel⟩ : ∃ m, scanFuel = m + 1 := ⟨scanFuel - 1, by omega⟩
    unfold selecting
    split
    · have hcall : MiniDB.cursorNext table scanFuel (.projection cursor columns) s =
          .ok (none, .projection cursor' columns, s') := by
        rw [hfuel, MiniDB.cursorNext, hnext fuel (by omega)]
        rfl
      rw [hfuel, MiniDB.drain, hcall]
      rfl
    · rw [hfuel, MiniDB.drain, hnext scanFuel hk.le]
      rfl

/-- A filter stumbles over the first row that it tests. -/
theorem Delivers.drain_selecting_filter (h : Delivers table k child s (row :: rows))
    (hk : k + 2 ≤ scanFuel) (hfind : MiniDB.findTable (s.page 0) table.tableName = .ok n)
    {f : Fault}
    (htest : MiniDB.rowMatchesWhere (some condition) row (s.page 0) n = .error f)
    (columns : List Expr) :
    MiniDB.drain table scanFuel (selecting columns (.filter child condition)) s = .error f := by
  cases h with
  | @next _ child' _ s₁ _ _ hnext hf _ =>
    have hfilter : ∀ fuel, k < fuel →
        MiniDB.cursorNext table fuel (.filter child condition) s = .error f := by
      intro fuel hfuel
      obtain ⟨fuel, rfl⟩ : ∃ m, fuel = m + 1 := ⟨fuel - 1, by omega⟩
      rw [cursorNext_filter condition hfind (hnext fuel (by omega)) hf, htest]
      rfl
    obtain ⟨fuel, hfuel⟩ : ∃ m, scanFuel = m + 1 := ⟨scanFuel - 1, by omega⟩
    have hcall : MiniDB.cursorNext table scanFuel (selecting columns (.filter child condition)) s =
        .error f := by
      unfold selecting
      split
      · rw [hfuel, MiniDB.cursorNext, hfilter fuel (by omega)]
        rfl
      · exact hfilter scanFuel (by omega)
    rw [hfuel, MiniDB.drain, hcall]
    rfl

/-! ## Statements -/

/-- A scan of the table meets a row: in the first leaf there has to be one, on any other leaf the
scan reads one whether it is there or not. -/
def ScansRow (s : Pager) (rootPageNum : ℕ) : Prop :=
  ∃ leaf leaves, tableLeaves s rootPageNum = .ok (leaf :: leaves) ∧
    (numCells (s.page leaf) ≠ 0 ∨ leaves ≠ [])

theorem Holds.scansRow_iff (h : Holds s table n σ t) :
    ScansRow s table.rootPageNum ↔ scanRows σ s.page t.2.leaves ≠ [] := by
  obtain ⟨l, ls, hleaves, -⟩ := h.represents.leaf_cons h.sound
  have hpages := h.represents.tableLeaves h.sound
  rw [h.root, hleaves, List.map_cons] at hpages
  obtain ⟨e, hleaf⟩ := h.represents.stored.leafPage_of_mem
    (hleaves ▸ List.mem_cons_self : l ∈ t.2.leaves)
  have hfirst : numCells (s.page l.page) = l.cells.length := hleaf.length_cells
  have hrest : ls.flatMap (hopRows σ s.page) ≠ [] ↔ ls ≠ [] := by
    cases ls <;> simp [hopRows]
  have hrows : scanRows σ s.page (l :: ls) ≠ [] ↔ l.cells.length ≠ 0 ∨ ls ≠ [] := by
    rw [scanRows, ne_eq, List.append_eq_nil_iff, not_and_or, ← ne_eq, ← ne_eq, hrest]
    simp only [ne_eq, List.map_eq_nil_iff, List.length_eq_zero_iff]
  rw [hleaves, hrows, ← hfirst]
  constructor
  · rintro ⟨leaf, leaves, hrun, hor⟩
    rw [hpages] at hrun
    cases hrun
    exact hor.imp_right fun hne heq => hne (by rw [heq]; rfl)
  · intro hor
    exact ⟨_, _, hpages, hor.imp_right fun hne heq => hne (List.map_eq_nil_iff.mp heq)⟩

/-- What the condition of a `SELECT` must be like: absent, or an equality whose left side is a
column.  Against the primary key, which is looked up, the right side is an integer; otherwise the
condition is readable, unless the columns of the statement do not exist or there is no row to
test. -/
def SelectReadable (s : Pager) (table : Table) (n : ℕ) (columns : List Expr) :
    Option Expr → Prop
  | none => True
  | some (.equals (.column name) value) =>
    (isPrimaryKey (s.page 0) n name = .ok true → ∃ key, value = .literalInt key) ∧
      (isPrimaryKey (s.page 0) n name = .ok false →
        validateColumns s table n columns (some (.equals (.column name) value)) = .ok none →
        ScansRow s table.rootPageNum →
        Readable (s.page 0) n (some (.equals (.column name) value)))
  | some _ => False

/-- The part of a `SELECT` behind its plan. -/
theorem selectCommand_eq (hfind : MiniDB.findTable (s.page 0) table.tableName = .ok n)
    {source : PlanNode}
    (hsource : buildSource s n table.rootPageNum (catalogNodeRowSize (s.page 0) n) where_ =
      .ok source) (name : List UInt8) (isStar : Bool) (columns : List Expr) :
    selectCommand s table n (.select name isStar columns where_) columns where_ = (do
      let complaint ← (if where_.isSome ∨ columns.length > 0 then
        validateColumns s table n columns where_ else pure none)
      if let some text := complaint then
        return (⟨.commandSuccess, [text ++ ascii "Column(s) entered do not exist!"]⟩, s)
      let cursor ← buildCursor (project columns source)
      let (rows, s) ← MiniDB.drain table scanFuel cursor s
      return (⟨.commandSuccess, ← MiniDB.printRows rows⟩, s)) := by
  unfold selectCommand
  rw [buildPlan_eq hfind hsource name isStar columns]
  rfl

theorem buildCursor_project {source : PlanNode} (hbuild : buildCursor source = .ok cursor)
    (columns : List Expr) :
    buildCursor (project columns source) = .ok (selecting columns cursor) := by
  unfold project selecting
  split
  · rw [buildCursor, hbuild]
    rfl
  · exact hbuild

theorem TypeSafe.validateColumns (s : Pager) (table : Table) (n : ℕ) (h : AreColumns columns)
    (name : List UInt8) (value : Expr) :
    TypeSafe (MiniDB.validateColumns s table n columns (some (.equals (.column name) value)))
      fun _ => True := by
  refine (TypeSafe.columnExists (s.page 0) n name).bind ?_
  rintro (_ | _) - -
  · trivial
  · exact TypeSafe.missingColumns (s.page 0) table n h

/-- A `SELECT` whose cursor is typed. -/
theorem TypeSafe.selectCommand (where_ : Option Expr)
    (hfind : MiniDB.findTable (s.page 0) table.tableName = .ok n)
    (hpos : 0 < catalogNodeColumnCount (s.page 0) n) (hcolumns : AreColumns columns)
    {source : PlanNode}
    (hsource : buildSource s n table.rootPageNum (catalogNodeRowSize (s.page 0) n) where_ =
      .ok source) (hbuild : buildCursor source = .ok cursor)
    (htyped : cursor.Typed (s.page 0) n)
    (hvalid : TypeSafe (MiniDB.validateColumns s table n columns where_) fun _ => True)
    (name : List UInt8) (isStar : Bool) :
    TypeSafe (MiniDB.selectCommand s table n (.select name isStar columns where_) columns where_)
      fun _ => True := by
  rw [selectCommand_eq hfind hsource, buildCursor_project hbuild]
  have hcheck : TypeSafe (if where_.isSome ∨ columns.length > 0 then
      MiniDB.validateColumns s table n columns where_ else pure none) fun _ => True := by
    split
    · exact hvalid
    · trivial
  refine hcheck.bind ?_
  rintro (_ | text) - -
  · have htyped' : (selecting columns cursor).Typed (s.page 0) n := by
      unfold selecting
      split
      · exact ⟨htyped, hcolumns⟩
      · exact htyped
    refine (TypeSafe.drain hfind hpos scanFuel htyped').bind ?_
    rintro ⟨rows, s'⟩ - -
    exact (TypeSafe.printRows rows).bind fun _ _ _ => trivial
  · trivial

/-- The rows of a scan are read with the types of the columns. -/
theorem mem_scanRows {m : ℕ → Page} {ls : List (Leaf Int64 (List UInt8))}
    (h : row ∈ scanRows σ m ls) : ∃ bs, row = ⟨decodeValues σ.types bs⟩ := by
  cases ls with
  | nil => exact absurd h List.not_mem_nil
  | cons l ls =>
    rcases List.mem_append.mp h with h | h
    · obtain ⟨c, -, rfl⟩ := List.mem_map.mp h
      exact ⟨c.2, rfl⟩
    · obtain ⟨l', -, h⟩ := List.mem_flatMap.mp h
      rcases List.mem_cons.mp h with rfl | h
      · exact ⟨_, rfl⟩
      · obtain ⟨c, -, rfl⟩ := List.mem_map.mp h
        exact ⟨c.2, rfl⟩

/-- A `SELECT` that filters a scan. -/
theorem Holds.selectCommand_filter_union_iff (h : Holds s table n σ t)
    (hcolumns : AreColumns columns) {column : List UInt8}
    (hpk : isPrimaryKey (s.page 0) n column = .ok false) (name : List UInt8) (isStar : Bool) :
    selectCommand s table n (.select name isStar columns (some (.equals (.column column) value)))
        columns (some (.equals (.column column) value)) = .error .unionMember ↔
      MiniDB.validateColumns s table n columns (some (.equals (.column column) value)) =
          .ok none ∧
        ScansRow s table.rootPageNum ∧
        ¬ Readable (s.page 0) n (some (.equals (.column column) value)) := by
  have hvalid := TypeSafe.validateColumns s table n hcolumns column value
  have hsource := buildSource_eq hpk value table.rootPageNum
    (catalogNodeRowSize (s.page 0) n)
  rw [if_neg (by decide)] at hsource
  by_cases hread : Readable (s.page 0) n (some (.equals (.column column) value))
  · have hsafe := TypeSafe.selectCommand _ h.find h.describes.columnCount_pos hcolumns hsource rfl
      ⟨trivial, trivial, hread⟩ hvalid name isStar
    exact iff_of_false hsafe.ne fun hno => hno.2.2 hread
  have hsome : (some (Expr.equals (.column column) value)).isSome = true ∨ columns.length > 0 :=
    Or.inl rfl
  rw [selectCommand_eq h.find hsource, buildCursor_project rfl, h.describes.rowSize, if_pos hsome]
  cases hcheck :
      MiniDB.validateColumns s table n columns (some (.equals (.column column) value)) with
  | error f =>
    rw [hcheck] at hvalid
    exact iff_of_false (fun heq => hvalid (Except.error.inj heq)) (by rintro ⟨⟨⟩, -⟩)
  | ok complaint =>
    cases complaint with
    | some text => exact iff_of_false (by rintro ⟨⟩) (by rintro ⟨⟨⟩, -⟩)
    | none =>
      obtain ⟨hscan, -⟩ := h.delivers_root
      rw [h.scansRow_iff]
      cases hrows : scanRows σ s.page t.2.leaves with
      | nil =>
        rw [hrows] at hscan
        have hfilter := hscan.filter (.equals (.column column) value) (p := fun _ => false) h.find
          fun _ hrow => absurd hrow List.not_mem_nil
        obtain ⟨s', hdrain⟩ := hfilter.drain_selecting_nil (by decide) columns
        refine iff_of_false ?_ fun hno => hno.2.1 rfl
        show (MiniDB.drain table scanFuel (selecting columns _) s >>= _) ≠ _
        rw [hdrain]
        rintro ⟨⟩
      | cons row rows =>
        obtain ⟨bs, hbs⟩ := mem_scanRows (hrows ▸ List.mem_cons_self : row ∈ _)
        rw [hrows] at hscan
        have htest : MiniDB.rowMatchesWhere (some (.equals (.column column) value)) row (s.page 0)
            n = .error .unionMember := by
          rw [hbs]
          exact (faulty_union_iff (c := (0, bs)) h.describes).mpr hread
        have hdrain := hscan.drain_selecting_filter (by decide) h.find htest columns
        refine iff_of_true ?_ ⟨rfl, List.cons_ne_nil _ _, hread⟩
        show (MiniDB.drain table scanFuel (selecting columns _) s >>= _) = _
        rw [hdrain]
        rfl

/-- **A `SELECT` reads a member of another type** just when its condition is not as it must be. -/
theorem Holds.selectCommand_union_iff (h : Holds s table n σ t) (hcolumns : AreColumns columns)
    (name : List UInt8) (isStar : Bool) :
    selectCommand s table n (.select name isStar columns where_) columns where_ =
      .error .unionMember ↔ ¬ SelectReadable s table n columns where_ := by
  have hpos := h.describes.columnCount_pos
  have hplan : ∀ {f : Fault}, buildSource s n table.rootPageNum
      (catalogNodeRowSize (s.page 0) n) where_ = .error f →
      selectCommand s table n (.select name isStar columns where_) columns where_ = .error f := by
    intro f hf
    unfold selectCommand buildPlan
    rw [h.find]
    show ((buildSource s n table.rootPageNum (catalogNodeRowSize (s.page 0) n) where_ >>= _) >>= _)
      = _
    rw [hf]
    rfl
  cases where_ with
  | none =>
    have hvalid : TypeSafe (MiniDB.validateColumns s table n columns none) fun _ => True :=
      TypeSafe.missingColumns (s.page 0) table n hcolumns
    have hsafe := TypeSafe.selectCommand none h.find hpos hcolumns rfl rfl trivial hvalid
      name isStar
    exact iff_of_false hsafe.ne fun hno => hno trivial
  | some condition =>
    cases condition with
    | equals left value =>
      cases left with
      | column column =>
        have hvalid := TypeSafe.validateColumns s table n hcolumns column value
        cases hpk : isPrimaryKey (s.page 0) n column with
        | error f =>
          -- the name of the primary key has no end
          have hf : buildSource s n table.rootPageNum (catalogNodeRowSize (s.page 0) n)
              (some (.equals (.column column) value)) = .error f := by
            unfold buildSource
            show (isPrimaryKey (s.page 0) n column >>= _) = _
            rw [hpk]
            rfl
          rw [hplan hf]
          refine iff_of_false ?_ ?_
          · rintro ⟨⟩
            exact absurd (nameEquals_fault hpk) (by decide)
          · refine fun hno => hno ⟨fun htrue => ?_, fun hfalse => ?_⟩
            · rw [hpk] at htrue
              cases htrue
            · rw [hpk] at hfalse
              cases hfalse
        | ok b =>
          have hsource := buildSource_eq hpk value table.rootPageNum
            (catalogNodeRowSize (s.page 0) n)
          cases b with
          | true =>
            rw [if_pos rfl] at hsource
            cases value with
            | literalInt key =>
              have hsafe := TypeSafe.selectCommand _ h.find hpos hcolumns hsource rfl trivial hvalid
                name isStar
              refine iff_of_false hsafe.ne fun hno => hno ⟨fun _ => ⟨key, rfl⟩, fun hfalse => ?_⟩
              rw [hpk] at hfalse
              cases hfalse
            | _ =>
              refine iff_of_true (hplan hsource) ?_
              rintro ⟨hkey, -⟩
              obtain ⟨key, hkey⟩ := hkey hpk
              cases hkey
          | false =>
            rw [h.selectCommand_filter_union_iff hcolumns hpk name isStar]
            constructor
            · rintro ⟨hcheck, hscans, hread⟩ ⟨-, hfilter⟩
              exact hread (hfilter hpk hcheck hscans)
            · intro hno
              refine not_imp_comm.mp (fun hall => ⟨fun htrue => ?_, fun _ hcheck hscans => ?_⟩) hno
              · rw [hpk] at htrue
                cases htrue
              · by_contra hread
                exact hall ⟨hcheck, hscans, hread⟩
      | _ => exact iff_of_true (hplan rfl) fun hno => hno
    | _ => exact iff_of_true (hplan rfl) fun hno => hno

end MiniDB
