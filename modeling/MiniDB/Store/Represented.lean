import MiniDB.Store.Relation
import MiniDB.Cursors.Meaning
import MiniDB.Statements.Lookup
import MiniDB.Sessions.Database
import Mathlib.Data.List.GetD

/-!
# Tables of the store in the pages

What the program computes from the catalog page and from the bytes of a row, the store computes from
its names and values: the resolved column, the test of a condition, the check of all rows, and the
rows that the plan of a `SELECT` stands for.

* `Presents`: the pages of a table hold the rows of a relation.
* `Presents.test`, `Presents.check_cases`: **conditions**.
* `Presents.resolve`: the assignments of an `UPDATE`.
* `Presents.buildSource`, `Presents.validates`, `Presents.means_source`: **the plan of a `SELECT`**.
-/

namespace MiniDB

open BPlusTree Pager

/-- A cell as a row under its key. -/
def viewCell (σ : Schema) (c : Cell) : Int64 × List Value := (c.1, decodeValues σ.types c.2)

/-- The pages of the table hold the rows of the relation, and the catalog the names of its
columns. -/
structure Presents (s : Pager) (table : Table) (n : ℕ) (t : PageTreeAny) (r : Relation) : Prop where
  holds : Holds s table n r.schema t
  names : NamesFrom (s.page 0) n 0 r.names
  rows : t.2.contents.map (viewCell r.schema) = r.rows

variable {s s' : Pager} {table : Table} {n : ℕ} {t : PageTreeAny} {r : Relation}
  {where_ : Option Expr} {columns : List Expr} {vs : List Value} {bs : List UInt8}

/-! ## Names -/

theorem Relation.length_names (r : Relation) : r.names.length = r.schema.types.length := by
  rw [names, schema, schemaOf, List.length_map, List.length_map]

/-- A table has a column. -/
theorem Relation.names_pos (r : Relation) : 0 < r.names.length := by
  rw [r.length_names]
  exact Nat.zero_lt_of_lt r.schema.primaryKey_lt

theorem Relation.column_lt {name : List UInt8} {i : ℕ} (h : r.column name = some i) :
    i < r.names.length :=
  (List.findIdx?_eq_some_iff_findIdx_eq.mp h).1

/-- Reading the name of an expression that is none fails. -/
theorem asColumn_cases (e : Expr) :
    (∃ name, e = .column name) ∨ e.asColumn = .error .unionMember := by
  cases e with
  | column name => exact Or.inl ⟨name, rfl⟩
  | literalInt _ => exact Or.inr rfl
  | literalString _ => exact Or.inr rfl
  | literalBoolean _ => exact Or.inr rfl
  | equals _ _ => exact Or.inr rfl

theorem Presents.columnCount (h : Presents s table n t r) :
    catalogNodeColumnCount (s.page 0) n = r.names.length :=
  h.holds.describes.columnCount.trans r.length_names.symm

theorem Presents.findColumn (h : Presents s table n t r) (name : List UInt8) :
    catalogNodeFindColumn (s.page 0) n name = .ok (r.column name) :=
  findColumn_eq h.names h.columnCount name

theorem Presents.isPrimaryKey (h : Presents s table n t r) (name : List UInt8) :
    MiniDB.isPrimaryKey (s.page 0) n name = .ok (r.isKey name) := by
  have hpk := h.holds.describes.primaryKey
  have hlt : r.schema.primaryKey < r.names.length := by
    rw [r.length_names]
    exact r.schema.primaryKey_lt
  rw [isPrimaryKey_eq h.names (by rw [hpk]; exact hlt), Relation.isKey,
    List.getD_eq_getElem _ _ hlt]
  simp only [hpk]

/-! ## Conditions -/

/-- **The test of a row.** -/
theorem Presents.test (h : Presents s table n t r) (hlen : vs.length = r.names.length) :
    rowMatchesWhere where_ ⟨vs⟩ (s.page 0) n = r.test where_ vs := by
  cases where_ with
  | none => rfl
  | some condition =>
    show (condition.asEquals >>= _) = (condition.asEquals >>= _)
    cases condition.asEquals with
    | error f => rfl
    | ok pair =>
      obtain ⟨column, value⟩ := pair
      show rowMatchesFrom column value (s.page 0) n 0 vs = (column.asColumn >>= _)
      rcases asColumn_cases column with ⟨name, rfl⟩ | hcolumn
      · rw [rowMatchesFrom_eq h.names name value hlen]
        rfl
      · obtain ⟨v, vs, rfl⟩ := List.exists_cons_of_length_pos (by rw [hlen]; exact r.names_pos)
        simp only [rowMatchesFrom, columnNameIs, hcolumn]
        rfl

theorem Presents.testRow (h : Presents s table n t r) (bs : List UInt8) :
    MiniDB.testRow r.schema (s.page 0) n where_ bs =
      r.test where_ (decodeValues r.schema.types bs) :=
  h.test (by rw [length_decodeValues, r.length_names])

/-- **The rows that a condition selects.** -/
theorem Presents.selected (h : Presents s table n t r) (c : Cell) :
    MiniDB.selected r.schema (s.page 0) n where_ c = r.selects where_ (viewCell r.schema c).2 := by
  unfold MiniDB.selected Relation.selects
  rw [h.testRow c.2]
  rfl

/-- Checking rows succeeds just when each can be tested. -/
theorem Relation.check_cases (r : Relation) (where_ : Option Expr)
    (rows : List (Int64 × List Value)) :
    (r.check where_ rows = .ok () ∧
        ∀ row ∈ rows, r.test where_ row.2 = .ok (r.selects where_ row.2)) ∨
      ∃ f, r.check where_ rows = .error f ∧ ∃ row ∈ rows, r.test where_ row.2 = .error f := by
  induction rows with
  | nil => exact Or.inl ⟨rfl, fun _ h => absurd h List.not_mem_nil⟩
  | cons row rows ih =>
    rw [check]
    cases htest : r.test where_ row.2 with
    | error f => exact Or.inr ⟨f, rfl, row, List.mem_cons_self, htest⟩
    | ok b =>
      rcases ih with ⟨hok, hall⟩ | ⟨f, herr, row', hrow', hf⟩
      · refine Or.inl ⟨hok, fun row' hrow' => ?_⟩
        rcases List.mem_cons.mp hrow' with rfl | hrow'
        · rw [selects, htest]
        · exact hall row' hrow'
      · exact Or.inr ⟨f, herr, row', List.mem_cons_of_mem _ hrow', hf⟩

/-- **The check of all rows** against the cells of the table. -/
theorem Presents.check_cases (h : Presents s table n t r) (where_ : Option Expr) :
    (r.check where_ r.rows = .ok () ∧
        ∀ f, ∀ c ∈ t.2.contents, ¬ Faulty r.schema (s.page 0) n where_ f c) ∨
      ∃ f, r.check where_ r.rows = .error f ∧
        ∃ c ∈ t.2.contents, Faulty r.schema (s.page 0) n where_ f c := by
  rcases r.check_cases where_ r.rows with ⟨hok, hall⟩ | ⟨f, herr, row, hrow, hf⟩
  · refine Or.inl ⟨hok, fun f c hc hbad => ?_⟩
    have hrow := hall (viewCell r.schema c) (h.rows ▸ List.mem_map_of_mem hc)
    cases (h.testRow c.2).symm.trans hbad |>.symm.trans hrow
  · rw [← h.rows] at hrow
    obtain ⟨c, hc, rfl⟩ := List.mem_map.mp hrow
    exact Or.inr ⟨f, herr, c, hc, (h.testRow c.2).trans hf⟩

/-! ## Assignments -/

/-- The check that a literal goes with a column. -/
theorem Presents.typeMatches (h : Presents s table n t r) {i : ℕ} (hi : i < r.names.length)
    (value : Expr) :
    MiniDB.typeMatches (storedType (s.page 0) n i) value =
      r.schema.types[i]?.any fun t => MiniDB.typeMatches t.toByte value := by
  rw [r.length_names] at hi
  rw [h.holds.describes.storedType hi, List.getElem?_eq_getElem hi, Option.any_some]

/-- **The assignments of an `UPDATE`.** -/
theorem Presents.resolve (h : Presents s table n t r) (pairs : List (Expr × Expr)) :
    resolveAssignments (s.page 0) n pairs = r.resolve pairs := by
  induction pairs with
  | nil => rfl
  | cons pair pairs ih =>
    obtain ⟨column, value⟩ := pair
    rw [resolveAssignments, Relation.resolve, ih]
    cases column.asColumn with
    | error f => rfl
    | ok name =>
      simp only [ok_bind, h.findColumn]
      cases hcolumn : r.column name with
      | none => rfl
      | some i =>
        show (if MiniDB.typeMatches _ _ = true then _ else _) = if _ then _ else _
        rw [h.typeMatches (Relation.column_lt hcolumn)]

/-! ## The plan of a `SELECT` -/

/-- The source of the rows for a condition, given the key that it names. -/
def sourceFor (root rowSize : ℕ) : Option Expr → Option Int64 → PlanNode
  | _, some key => .pkLookup root key rowSize
  | none, none => .tableScan root rowSize
  | some condition, none => .filter (.tableScan root rowSize) condition

/-- **The source that is chosen.** -/
theorem Presents.buildSource (h : Presents s table n t r) (root rowSize : ℕ)
    (where_ : Option Expr) : MiniDB.buildSource s n root rowSize where_ =
      (r.plan where_).map (sourceFor root rowSize where_) := by
  cases where_ with
  | none => rfl
  | some condition =>
    rw [MiniDB.buildSource, Relation.plan]
    cases condition.asEquals with
    | error f => rfl
    | ok pair =>
      obtain ⟨column, value⟩ := pair
      simp only [ok_bind]
      cases column.asColumn with
      | error f => rfl
      | ok name =>
        simp only [ok_bind, h.isPrimaryKey]
        cases r.isKey name with
        | false => rfl
        | true => cases value.asLiteralInt <;> rfl

/-- The inner loop of `validate_columns`. -/
theorem Presents.columnExists (h : Presents s table n t r) (e : Expr) :
    MiniDB.columnExists (s.page 0) n e = do return (r.column (← e.asColumn)).isSome := by
  rcases asColumn_cases e with ⟨name, rfl⟩ | hcolumn
  · exact columnExists_eq h.names h.columnCount name
  · obtain ⟨m, hm⟩ : ∃ m, catalogNodeColumnCount (s.page 0) n = m + 1 :=
      ⟨catalogNodeColumnCount (s.page 0) n - 1, by have := r.names_pos; rw [h.columnCount]; omega⟩
    rw [MiniDB.columnExists, hm, List.range_succ_eq_map, findFirst, columnNameIs, hcolumn]
    rfl

theorem Presents.missing (h : Presents s table n t r) (columns : List Expr) :
    missingColumns (s.page 0) table n columns = r.missing table.tableName columns := by
  induction columns with
  | nil => rfl
  | cons column columns ih =>
    rw [missingColumns, Relation.missing, h.columnExists, ih]
    cases hcolumn : column.asColumn with
    | error f => rfl
    | ok name =>
      simp only [ok_bind, missingColumn, hcolumn]
      cases (r.column name).isSome <;> rfl

/-- **The check of the columns.** -/
theorem Presents.complaint (h : Presents s table n t r) (columns : List Expr)
    (where_ : Option Expr) :
    validateColumns s table n columns where_ = r.complaint table.tableName columns where_ := by
  cases where_ with
  | none => exact h.missing columns
  | some condition =>
    unfold validateColumns Relation.complaint
    cases hequals : condition.asEquals with
    | error f => simp only [hequals]; rfl
    | ok pair =>
      simp only [hequals, ok_bind, h.missing, h.columnExists, Relation.missing, missingColumn]
      cases hcolumn : pair.1.asColumn with
      | error f => rfl
      | ok name =>
        simp only [ok_bind]
        cases hfound : (r.column name).isSome <;> rfl

/-! ## The rows of a `SELECT` -/

/-- Looking a row up under its key. -/
theorem lookup_viewCell (σ : Schema) (cells : List Cell) (key : Int64) :
    (cells.map (viewCell σ)).lookup key = (cells.lookup key).map (decodeValues σ.types) := by
  induction cells with
  | nil => rfl
  | cons c cells ih =>
    rw [List.map_cons, viewCell, List.lookup_cons, List.lookup_cons, ih]
    cases key == c.1 <;> rfl

/-- The rows that are filtered out of a list. -/
theorem Presents.restrict (h : Presents s table n t r) (condition : Expr)
    (rows : List (Int64 × List Value)) (hlen : ∀ row ∈ rows, row.2.length = r.names.length) :
    MiniDB.restrict (s.page 0) n condition (rows.map fun row => ⟨row.2⟩) = do
      r.check (some condition) rows
      return (rows.filter fun row => r.selects (some condition) row.2).map fun row => ⟨row.2⟩ := by
  induction rows with
  | nil => rfl
  | cons row rows ih =>
    rw [List.map_cons, MiniDB.restrict, ih fun row hrow => hlen row (List.mem_cons_of_mem _ hrow),
      h.test (hlen row List.mem_cons_self), Relation.check, List.filter_cons, Relation.selects]
    cases r.test (some condition) row.2 with
    | error f => rfl
    | ok b =>
      cases r.check (some condition) rows with
      | error f => rfl
      | ok u => cases b <;> rfl

/-- The rows of a relation are as long as its list of columns. -/
theorem Relation.length_row {row : Int64 × List Value} (hrow : row ∈ r.rows) :
    row.2.length = r.names.length := by
  rw [← List.length_map Value.columnType, r.typed row hrow, names, List.length_map,
    List.length_map]

/-- The rows of a scan. -/
theorem Presents.scanRows (h : Presents s table n t r) (hfilled : t.2.Filled) :
    MiniDB.scanRows r.schema s.page t.2.leaves = r.rows.map fun row => ⟨row.2⟩ := by
  rw [h.holds.scanRows_iff.mpr hfilled, ← h.rows, List.map_map]
  rfl

/-- A condition that is absent selects every row. -/
theorem Relation.check_none (r : Relation) (rows : List (Int64 × List Value)) :
    r.check none rows = .ok () := by
  induction rows with
  | nil => rfl
  | cons row rows ih => exact ih

/-- **What a source means** are the rows that the store finds. -/
theorem Presents.means_source (h : Presents s table n t r) (hfilled : t.2.Filled)
    {root rowSize : ℕ} {key : Option Int64} {out : Exec (List Row)}
    (hmeans : (sourceFor root rowSize where_ key).Means r.schema t s n out) :
    out = (r.found where_ key).map (List.map Row.mk) := by
  cases key with
  | some key =>
    have hlookup := h.holds.represents.good.ordered
    cases hmeans
    rw [lookupRows, Tree.lookup_eq_contents hlookup, Relation.found, ← h.rows, lookup_viewCell]
    cases t.2.contents.lookup key <;> rfl
  | none =>
    cases where_ with
    | none =>
      cases hmeans
      have hall : (r.rows.filter fun row => r.selects none row.2) = r.rows := List.filter_true _
      rw [h.scanRows hfilled, Relation.found, r.check_none, hall]
      show _ = Except.ok _
      rw [List.map_map]
      rfl
    | some condition =>
      obtain ⟨rows, hrows, rfl⟩ := hmeans
      cases hrows
      rw [h.scanRows hfilled, ok_bind, h.restrict condition r.rows fun _ => Relation.length_row,
        Relation.found]
      cases r.check (some condition) r.rows with
      | error f => rfl
      | ok u =>
        show Except.ok _ = Except.ok _
        rw [List.map_map]
        rfl

/-- A projected row has the values that the store picks. -/
theorem Presents.pick (h : Presents s table n t r) {out : Row}
    (hp : Projects (s.page 0) n columns ⟨vs⟩ out) : r.pick vs columns = .ok out.values := by
  obtain ⟨values⟩ := out
  have hp' : List.Forall₂ (InColumn (s.page 0) n ⟨vs⟩) columns values := hp
  clear hp
  induction hp' with
  | nil => rfl
  | @cons column v columns values hv _ ih =>
    obtain ⟨name, j, rfl, hfind, hj⟩ := hv
    rw [h.findColumn] at hfind
    have hcolumn : r.column name = some j := Except.ok.inj hfind
    have hpick : (r.column name).bind (vs[·]?) = some v := by
      rw [hcolumn]
      exact hj
    rw [Relation.pick, ih]
    simp only [Expr.asColumn, ok_bind, hpick]
    rfl

/-- **The rows of the plan** that is made for a condition and checked columns. -/
theorem Presents.planRows (h : Presents s table n t r) (hfilled : t.2.Filled)
    {key : Option Int64} (hplan : r.plan where_ = .ok key)
    (hvalid : r.complaint table.tableName columns where_ = .ok none) :
    MiniDB.planRows s table
        (project columns (sourceFor table.rootPageNum r.schema.rowSize where_ key)) =
      (r.found where_ key >>= r.shown columns).map (List.map Row.mk) := by
  have hsource := h.buildSource table.rootPageNum r.schema.rowSize where_
  rw [hplan] at hsource
  have hbuild := buildPlan_eq h.holds.find
    (by rw [h.holds.describes.rowSize]; exact hsource) [] true columns
  have hmeans := h.holds.planRows_means ((h.complaint columns where_).trans hvalid) hbuild
  generalize MiniDB.planRows s table _ = out at hmeans
  unfold project at hmeans
  split at hmeans
  · next hpos =>
    obtain ⟨rows, hrows, hout⟩ := hmeans
    have hfound := h.means_source hfilled hrows
    cases hf : r.found where_ key with
    | error f =>
      rw [hf] at hfound
      subst hfound
      exact hout
    | ok found =>
      rw [hf] at hfound
      subst hfound
      obtain ⟨outs, rfl, hall⟩ := hout
      have hpicks : found.mapM (fun vs => r.pick vs columns) = .ok (outs.map Row.values) := by
        clear hf hrows
        induction found generalizing outs with
        | nil =>
          cases hall
          rfl
        | cons vs found ih =>
          obtain ⟨out, outs', hp, hrest, rfl⟩ := List.forall₂_cons_left_iff.mp hall
          rw [List.mapM_cons, h.pick hp, ih _ hrest]
          rfl
      rw [ok_bind, Relation.shown, if_pos hpos, hpicks]
      show Except.ok outs = Except.ok _
      rw [List.map_map]
      exact congrArg Except.ok (List.map_id _).symm
  · next hpos =>
    rw [h.means_source hfilled hmeans]
    cases r.found where_ key with
    | error f => rfl
    | ok found => rw [ok_bind, Relation.shown, if_neg hpos]

/-- The check of the columns is left out when there are none. -/
theorem validateColumns_nil (s : Pager) (table : Table) (n : ℕ) (columns : List Expr)
    (where_ : Option Expr) :
    (if where_.isSome ∨ columns.length > 0 then validateColumns s table n columns where_
      else pure none) = validateColumns s table n columns where_ := by
  split
  · rfl
  · next hnone =>
    obtain ⟨hwhere, hcolumns⟩ := not_or.mp hnone
    obtain rfl := List.length_eq_zero_iff.mp (Nat.eq_zero_of_not_pos hcolumns)
    obtain rfl := Option.not_isSome_iff_eq_none.mp hwhere
    rfl

/-- The source of a condition has a cursor. -/
theorem exists_cursor (columns : List Expr) (root rowSize : ℕ) (where_ : Option Expr)
    (key : Option Int64) :
    ∃ cursor, buildCursor (project columns (sourceFor root rowSize where_ key)) = .ok cursor := by
  have hsource : ∃ cursor, buildCursor (sourceFor root rowSize where_ key) = .ok cursor := by
    cases key with
    | some key => cases where_ <;> exact ⟨_, rfl⟩
    | none => cases where_ <;> exact ⟨_, rfl⟩
  obtain ⟨cursor, hcursor⟩ := hsource
  unfold project
  split
  · exact ⟨.projection cursor columns, by rw [buildCursor, hcursor]; rfl⟩
  · exact ⟨cursor, hcursor⟩

/-- **Draining the cursor of the plan** gives the rows that the store finds. -/
theorem Presents.drain (h : Presents s table n t r) (hfilled : t.2.Filled) {key : Option Int64}
    (hplan : r.plan where_ = .ok key)
    (hvalid : r.complaint table.tableName columns where_ = .ok none) :
    ∃ cursor, buildCursor
        (project columns (sourceFor table.rootPageNum r.schema.rowSize where_ key)) = .ok cursor ∧
      ((∃ f f', MiniDB.drain table scanFuel cursor s = .error f ∧
          r.found where_ key >>= r.shown columns = .error f') ∨
        ∃ rows s', MiniDB.drain table scanFuel cursor s = .ok (rows.map Row.mk, s') ∧
          r.found where_ key >>= r.shown columns = .ok rows ∧ Fetched s s') := by
  have hsource := h.buildSource table.rootPageNum r.schema.rowSize where_
  rw [hplan] at hsource
  have hbuild := buildPlan_eq h.holds.find
    (by rw [h.holds.describes.rowSize]; exact hsource) [] true columns
  obtain ⟨cursor, hcursor⟩ := exists_cursor columns table.rootPageNum r.schema.rowSize where_ key
  have hof := buildCursor_of (t := t) (buildPlan_of hbuild) hcursor
  have hrows := h.planRows hfilled hplan hvalid
  rw [planRows_eq hcursor] at hrows
  refine ⟨cursor, hcursor, ?_⟩
  cases hdrain : MiniDB.drain table scanFuel cursor s with
  | error f =>
    rw [hdrain] at hrows
    cases hshown : r.found where_ key >>= r.shown columns with
    | error f' => exact Or.inl ⟨f, f', rfl, rfl⟩
    | ok shown =>
      rw [hshown] at hrows
      cases hrows
  | ok p =>
    obtain ⟨rows, s'⟩ := p
    rw [hdrain] at hrows
    cases hshown : r.found where_ key >>= r.shown columns with
    | error f' =>
      rw [hshown] at hrows
      cases hrows
    | ok shown =>
      rw [hshown] at hrows
      cases hrows
      exact Or.inr ⟨shown, s', rfl, rfl, drain_reads scanFuel h.holds hof hdrain⟩

/-- **A `SELECT`** prints what the store prints, or goes wrong where it does. -/
theorem Presents.select (h : Presents s table n t r) (hfilled : t.2.Filled) (name : List UInt8)
    (isStar : Bool) (columns : List Expr) (where_ : Option Expr) :
    (∃ f f', selectCommand s table n (.select name isStar columns where_) columns where_ =
        .error f ∧ r.select table.tableName columns where_ = .error f') ∨
      ∃ out s', selectCommand s table n (.select name isStar columns where_) columns where_ =
          .ok (⟨.commandSuccess, out⟩, s') ∧
        r.select table.tableName columns where_ = .ok out ∧ Fetched s s' := by
  have hsource := h.buildSource table.rootPageNum r.schema.rowSize where_
  rw [selectCommand, validateColumns_nil, h.complaint, Relation.select]
  cases hplan : r.plan where_ with
  | error f =>
    rw [hplan] at hsource
    refine Or.inl ⟨f, f, ?_, rfl⟩
    rw [buildPlan, h.holds.find]
    simp only [ok_bind, h.holds.describes.rowSize, hsource]
    rfl
  | ok key =>
    rw [hplan] at hsource
    rw [buildPlan_eq h.holds.find (by rw [h.holds.describes.rowSize]; exact hsource) name isStar
      columns, ok_bind, ok_bind]
    cases hvalid : r.complaint table.tableName columns where_ with
    | error f => exact Or.inl ⟨f, f, rfl, rfl⟩
    | ok complaint =>
      cases complaint with
      | some text => exact Or.inr ⟨_, s, rfl, rfl, Fetched.refl h.holds.sound⟩
      | none =>
        obtain ⟨cursor, hcursor, hdrain⟩ := h.drain hfilled hplan hvalid
        simp only [ok_bind, hcursor]
        rw [← bind_assoc]
        rcases hdrain with ⟨f, f', hrun, hshown⟩ | ⟨rows, s', hrun, hshown, hfetched⟩
        · exact Or.inl ⟨f, f', by rw [hrun]; rfl, by rw [hshown]; rfl⟩
        · rw [hrun, hshown, ok_bind, ok_bind]
          cases hprint : printRows (rows.map Row.mk) with
          | error f => exact Or.inl ⟨f, f, rfl, rfl⟩
          | ok out => exact Or.inr ⟨out, s', rfl, rfl, hfetched⟩

end MiniDB
