import MiniDB.Parsing.Lowered
import MiniDB.Model.Command

/-!
# Statements in lower case

The catalog compares names without regard to case.  So a statement whose names are written in lower
case does what it did before, unless it stores them.

* `Table.lowered`, `PlanNode.lowered`, `Cursor.lowered`: what a statement goes by, in lower case.
* `drain_lowered`: **a cursor delivers the same rows**.
* `RefusalsAlike`, `Alike`: what is the same but for the case of the names in a message.
* `execute_lowered`: **a statement does the same**, or it is refused alike.
-/

namespace MiniDB

open Results

variable {s s' : Pager} {name : List UInt8} {table : Table} {n rowSize : ℕ} {row : Row}

/-! ## Names -/

/-- **A name is compared without regard to case.** -/
theorem nameEquals_lowercase (name field : List UInt8) :
    nameEquals (lowercase name) field = nameEquals name field := by
  rw [nameEquals_eq, nameEquals_eq, lowercase_lowercase]

theorem catalogNodeFindTable_lowercase (catalog : Page) (name : List UInt8) :
    catalogNodeFindTable catalog (lowercase name) = catalogNodeFindTable catalog name := by
  unfold catalogNodeFindTable
  simp only [nameEquals_lowercase]

theorem findTable_lowercase (catalog : Page) (name : List UInt8) :
    findTable catalog (lowercase name) = findTable catalog name := by
  unfold findTable
  rw [catalogNodeFindTable_lowercase]

theorem catalogNodeFindColumn_lowercase (catalog : Page) (n : ℕ) (name : List UInt8) :
    catalogNodeFindColumn catalog n (lowercase name) = catalogNodeFindColumn catalog n name := by
  unfold catalogNodeFindColumn
  simp only [nameEquals_lowercase]

theorem isPrimaryKey_lowercase (catalog : Page) (n : ℕ) (name : List UInt8) :
    isPrimaryKey catalog n (lowercase name) = isPrimaryKey catalog n name :=
  nameEquals_lowercase _ _

/-! ## Expressions -/

@[simp] theorem Expr.asLiteralInt_lowered (e : Expr) : e.lowered.asLiteralInt = e.asLiteralInt := by
  cases e <;> rfl

@[simp] theorem Expr.asLiteralString_lowered (e : Expr) :
    e.lowered.asLiteralString = e.asLiteralString := by
  cases e <;> rfl

@[simp] theorem Expr.asLiteralBoolean_lowered (e : Expr) :
    e.lowered.asLiteralBoolean = e.asLiteralBoolean := by
  cases e <;> rfl

theorem Expr.asColumn_lowered (e : Expr) : e.lowered.asColumn = e.asColumn.map lowercase := by
  cases e <;> rfl

@[simp] theorem typeMatches_lowered (t : UInt8) (e : Expr) :
    typeMatches t e.lowered = typeMatches t e := by
  cases e <;> rfl

@[simp] theorem columnNameIs_lowered (e : Expr) (field : List UInt8) :
    columnNameIs e.lowered field = columnNameIs e field := by
  cases e with
  | column name => exact nameEquals_lowercase name field
  | _ => rfl

/-! ## Messages -/

/-- Nothing is done, and one line says which token or which column is to blame. -/
inductive Refusal : Outcome → Prop
  | parsed (e : ParseError) : Refusal ⟨.commandSuccess, [e.text]⟩
  | assigned (name : List UInt8) : Refusal ⟨.failure, [columnNotFound name]⟩
  | selected (column table : List UInt8) : Refusal ⟨.commandSuccess,
      [noSuchColumn column table ++ ascii "Column(s) entered do not exist!"]⟩

/-- Two refusals that differ at most in the case of letters. -/
structure RefusalsAlike (o o' : Outcome) : Prop where
  result : o.result = o'.result
  output : o.output.map lowercase = o'.output.map lowercase
  left : Refusal o
  right : Refusal o'

/-- The same is done, or it is refused alike, which leaves the state as it is. -/
def Alike (s : Pager) (x y : Exec (Outcome × Pager)) : Prop :=
  x = y ∨ ∃ o o', x = .ok (o, s) ∧ y = .ok (o', s) ∧ RefusalsAlike o o'

theorem Alike.refl (x : Exec (Outcome × Pager)) : Alike s x x := Or.inl rfl

theorem Alike.symm {x y : Exec (Outcome × Pager)} (h : Alike s x y) : Alike s y x := by
  rcases h with rfl | ⟨o, o', hx, hy, h⟩
  · exact Or.inl rfl
  · exact Or.inr ⟨o', o, hy, hx, h.result.symm, h.output.symm, h.right, h.left⟩

theorem Alike.trans {x y z : Exec (Outcome × Pager)} (h : Alike s x y) (h' : Alike s y z) :
    Alike s x z := by
  rcases h with rfl | ⟨o, o', hx, hy, h⟩
  · exact h'
  rcases h' with rfl | ⟨o₁, o₂, hy', hz, h'⟩
  · exact Or.inr ⟨o, o', hx, hy, h⟩
  · have heq := hy.symm.trans hy'
    cases heq
    exact Or.inr ⟨o, o₂, hx, hz, h.result.trans h'.result, h.output.trans h'.output, h.left,
      h'.right⟩

/-- One computation after the other, the first of which says nothing. -/
theorem Alike.of_related {α β : Type} {R : α → β → Prop} {x : Exec α} {y : Exec β}
    {f : α → Exec (Outcome × Pager)} {g : β → Exec (Outcome × Pager)} (h : Related Eq R x y)
    (hf : ∀ a b, R a b → Alike s (f a) (g b)) : Alike s (x >>= f) (y >>= g) := by
  cases h with
  | error he => exact Or.inl (congrArg Except.error he)
  | ok hab => exact hf _ _ hab

theorem Alike.bind {α : Type} (x : Exec α) {f g : α → Exec (Outcome × Pager)}
    (hf : ∀ a, Alike s (f a) (g a)) : Alike s (x >>= f) (x >>= g) := by
  cases x with
  | error e => exact Alike.refl (.error e)
  | ok a => exact hf a

/-! ## Conditions -/

@[simp] theorem valueMatches_lowered (e : Expr) (v : Value) :
    valueMatches e.lowered v = valueMatches e v := by
  cases v <;> simp only [valueMatches, literalStringEquals, Expr.asLiteralInt_lowered,
    Expr.asLiteralString_lowered, Expr.asLiteralBoolean_lowered]

theorem rowMatchesFrom_lowered (column value : Expr) (catalog : Page) (n i : ℕ) (vs : List Value) :
    rowMatchesFrom column.lowered value.lowered catalog n i vs =
      rowMatchesFrom column value catalog n i vs := by
  induction vs generalizing i with
  | nil => rfl
  | cons v vs ih =>
    unfold rowMatchesFrom
    simp only [columnNameIs_lowered, valueMatches_lowered, ih]

/-- **A condition selects the same rows.** -/
theorem rowMatchesWhere_lowered (where_ : Option Expr) (row : Row) (catalog : Page) (n : ℕ) :
    rowMatchesWhere (where_.map Expr.lowered) row catalog n =
      rowMatchesWhere where_ row catalog n := by
  cases where_ with
  | none => rfl
  | some condition =>
    cases condition with
    | equals column value => exact rowMatchesFrom_lowered column value catalog n 0 row.values
    | _ => rfl

/-! ## Tables -/

/-- A table by a name in lower case. -/
def Table.lowered (table : Table) : Table := { table with tableName := lowercase table.tableName }

@[simp] theorem Table.lowered_rootPageNum (table : Table) :
    table.lowered.rootPageNum = table.rootPageNum :=
  rfl

@[simp] theorem findTable_lowered (catalog : Page) (table : Table) :
    findTable catalog table.lowered.tableName = findTable catalog table.tableName :=
  findTable_lowercase catalog table.tableName

@[simp] theorem deserializeRow_lowered (s : Pager) (table : Table) (page : Page) (source : ℕ) :
    deserializeRow s table.lowered page source = deserializeRow s table page source := by
  unfold deserializeRow
  rw [findTable_lowered]

theorem readEntries_lowered (s : Pager) (table : Table) (page : Page) (rowSize : ℕ) (is : List ℕ) :
    readEntries s table.lowered page rowSize is = readEntries s table page rowSize is := by
  induction is with
  | nil => rfl
  | cons i is ih =>
    unfold readEntries
    rw [deserializeRow_lowered, ih]

theorem splitLeafNode_lowered (s : Pager) (table : Table) (old : ℕ) (key : Int64) (row : Row)
    (rowSize : ℕ) :
    splitLeafNode s table.lowered old key row rowSize =
      splitLeafNode s table old key row rowSize := by
  unfold splitLeafNode splitLeafStep
  simp only [readEntries_lowered]

/-! ## `INSERT`, `UPDATE` and `DELETE` -/

theorem rowValues_lowered (values : List Expr) :
    rowValues (values.map Expr.lowered) = rowValues values := by
  induction values with
  | nil => rfl
  | cons e es ih =>
    rw [List.map_cons]
    cases e <;> simp only [Expr.lowered, rowValues, ih]

theorem insertCommand_lowered (s : Pager) (table : Table) (name : List UInt8) (values : List Expr) :
    insertCommand s table.lowered (lowercase name) (values.map Expr.lowered) =
      insertCommand s table name values := by
  have htypes : ∀ types : List UInt8, List.zipWith typeMatches types (values.map Expr.lowered) =
      List.zipWith typeMatches types values := by
    intro types
    rw [List.zipWith_map_right]
    simp only [typeMatches_lowered]
  unfold insertCommand
  dsimp only
  rw [findTable_lowercase]
  refine bind_congr fun n => ?_
  rw [List.length_map, htypes, List.getElem?_map]
  cases values[catalogNodePrimaryKeyColumn (s.page 0) n]? with
  | none => rfl
  | some pkValue =>
    simp only [Option.map_some, Expr.asLiteralInt_lowered, rowValues_lowered, splitLeafNode_lowered,
      Table.lowered_rootPageNum]

/-- An assignment whose names are in lower case. -/
def loweredAssignment (a : ℕ × Expr) : ℕ × Expr := (a.1, a.2.lowered)

/-- The assignments in lower case are the same, or they are refused with the same line but for the
case of a name. -/
inductive AssignmentsAlike :
    Except (List UInt8) (List (ℕ × Expr)) → Except (List UInt8) (List (ℕ × Expr)) → Prop
  | resolved (as : List (ℕ × Expr)) : AssignmentsAlike (.ok (as.map loweredAssignment)) (.ok as)
  | unknown (name : List UInt8) : AssignmentsAlike (.error (columnNotFound (lowercase name)))
      (.error (columnNotFound name))
  | mismatch : AssignmentsAlike (.error typeMismatch) (.error typeMismatch)

theorem resolveAssignments_lowered (catalog : Page) (n : ℕ) (as : List (Expr × Expr)) :
    Related Eq AssignmentsAlike
      (resolveAssignments catalog n (as.map (Prod.map Expr.lowered Expr.lowered)))
      (resolveAssignments catalog n as) := by
  induction as with
  | nil => exact .ok (.resolved [])
  | cons a as ih =>
    obtain ⟨column, value⟩ := a
    rw [List.map_cons]
    unfold resolveAssignments
    dsimp only [Prod.map_apply]
    rw [Expr.asColumn_lowered]
    cases column.asColumn with
    | error f => exact .error rfl
    | ok name =>
      have hmap : (Except.ok name : Exec (List UInt8)).map lowercase = .ok (lowercase name) := rfl
      rw [hmap, ok_bind, ok_bind, catalogNodeFindColumn_lowercase]
      cases catalogNodeFindColumn catalog n name with
      | error f => exact .error rfl
      | ok found =>
        cases found with
        | none => exact .ok (.unknown name)
        | some i =>
          rw [ok_bind, ok_bind]
          refine Related.ite (by rw [typeMatches_lowered]) (fun _ => ?_) fun _ => .ok .mismatch
          refine ih.bind fun x y hxy => ?_
          cases hxy with
          | resolved as => exact .ok (.resolved ((i, value) :: as))
          | unknown name => exact .ok (.unknown name)
          | mismatch => exact .ok .mismatch

@[simp] theorem assignValue_lowered (e : Expr) (v : Value) :
    assignValue e.lowered v = assignValue e v := by
  cases v <;> simp only [assignValue, Expr.asLiteralInt_lowered, Expr.asLiteralString_lowered,
    Expr.asLiteralBoolean_lowered]

theorem assignValues_lowered (as : List (ℕ × Expr)) (vs : List Value) :
    assignValues (as.map loweredAssignment) vs = assignValues as vs := by
  induction as generalizing vs with
  | nil => rfl
  | cons a as ih =>
    obtain ⟨i, e⟩ := a
    have hhead : loweredAssignment (i, e) = (i, e.lowered) := rfl
    rw [List.map_cons, hhead]
    unfold assignValues
    cases vs[i]? with
    | none => rfl
    | some old =>
      dsimp only
      rw [assignValue_lowered]
      cases assignValue e old with
      | error f => rfl
      | ok new =>
        cases new with
        | none => rfl
        | some v => exact ih _

theorem updateCells_lowered (table : Table) (n rowSize : ℕ) (where_ : Option Expr)
    (as : List (ℕ × Expr)) (leaf : ℕ) (is : List ℕ) (dirty : Bool) (s : Pager) :
    updateCells table.lowered n rowSize (where_.map Expr.lowered) (as.map loweredAssignment) leaf is
      dirty s = updateCells table n rowSize where_ as leaf is dirty s := by
  induction is generalizing dirty s with
  | nil => rfl
  | cons i is ih =>
    unfold updateCells
    simp only [deserializeRow_lowered, rowMatchesWhere_lowered, assignValues_lowered, ih]

theorem updateLeaves_lowered (table : Table) (n rowSize : ℕ) (where_ : Option Expr)
    (as : List (ℕ × Expr)) (fuel : ℕ) (s : Pager) (leaf : ℕ) :
    updateLeaves table.lowered n rowSize (where_.map Expr.lowered) (as.map loweredAssignment) fuel s
      leaf = updateLeaves table n rowSize where_ as fuel s leaf := by
  induction fuel generalizing s leaf with
  | zero => rfl
  | succ fuel ih =>
    unfold updateLeaves
    simp only [updateCells_lowered, ih]

theorem updateCommand_lowered (s : Pager) (table : Table) (name : List UInt8)
    (columns values : List Expr) (where_ : Option Expr) :
    Alike s (updateCommand s table.lowered (lowercase name) (columns.map Expr.lowered)
      (values.map Expr.lowered) (where_.map Expr.lowered))
      (updateCommand s table name columns values where_) := by
  unfold updateCommand
  rw [findTable_lowercase]
  refine Alike.bind _ fun n => ?_
  rw [List.length_map, List.length_map, List.zip_map]
  dsimp only
  by_cases hlen : columns.length ≠ values.length
  · rw [if_pos hlen, if_pos hlen]
    exact Alike.refl _
  rw [if_neg hlen, if_neg hlen]
  refine Alike.of_related (resolveAssignments_lowered (s.page 0) n (columns.zip values)) ?_
  intro x y hxy
  cases hxy with
  | resolved as =>
    simp only [updateLeaves_lowered, Table.lowered_rootPageNum]
    exact Alike.refl _
  | unknown name =>
    dsimp only
    refine Or.inr ⟨_, _, rfl, rfl, rfl, ?_, .assigned _, .assigned _⟩
    simp only [columnNotFound, List.map_cons, lowercase_append, lowercase_lowercase]
  | mismatch =>
    dsimp only
    exact Alike.refl _

theorem deleteCells_lowered (table : Table) (n rowSize : ℕ) (where_ : Option Expr) (leaf : ℕ)
    (remaining i : ℕ) (dirty : Bool) (s : Pager) :
    deleteCells table.lowered n rowSize (where_.map Expr.lowered) leaf remaining i dirty s =
      deleteCells table n rowSize where_ leaf remaining i dirty s := by
  induction remaining generalizing i dirty s with
  | zero => rfl
  | succ remaining ih =>
    unfold deleteCells
    simp only [deserializeRow_lowered, rowMatchesWhere_lowered, ih]

theorem deleteLeaves_lowered (table : Table) (n rowSize : ℕ) (where_ : Option Expr) (fuel : ℕ)
    (s : Pager) (leaf : ℕ) :
    deleteLeaves table.lowered n rowSize (where_.map Expr.lowered) fuel s leaf =
      deleteLeaves table n rowSize where_ fuel s leaf := by
  induction fuel generalizing s leaf with
  | zero => rfl
  | succ fuel ih =>
    unfold deleteLeaves
    simp only [deleteCells_lowered, ih]

theorem deleteCommand_lowered (s : Pager) (table : Table) (name : List UInt8)
    (where_ : Option Expr) :
    deleteCommand s table.lowered (lowercase name) (where_.map Expr.lowered) =
      deleteCommand s table name where_ := by
  unfold deleteCommand
  simp only [findTable_lowercase, deleteLeaves_lowered, Table.lowered_rootPageNum]

/-! ## `SELECT` -/

/-- A plan whose names are in lower case. -/
def PlanNode.lowered : PlanNode → PlanNode
  | .tableScan root rowSize => .tableScan root rowSize
  | .pkLookup root key rowSize => .pkLookup root key rowSize
  | .filter child condition => .filter child.lowered condition.lowered
  | .projection child columns => .projection child.lowered (columns.map Expr.lowered)
  | .insert root values => .insert root (values.map Expr.lowered)

/-- A cursor whose names are in lower case. -/
def Cursor.lowered : Cursor → Cursor
  | .tableScan page cell rowSize done => .tableScan page cell rowSize done
  | .pkLookup root key rowSize done => .pkLookup root key rowSize done
  | .filter child condition => .filter child.lowered condition.lowered
  | .projection child columns => .projection child.lowered (columns.map Expr.lowered)

theorem buildSource_lowered (s : Pager) (n root rowSize : ℕ) (where_ : Option Expr) :
    buildSource s n root rowSize (where_.map Expr.lowered) =
      (buildSource s n root rowSize where_).map PlanNode.lowered := by
  cases where_ with
  | none => rfl
  | some condition =>
    cases condition with
    | equals left right =>
      cases left with
      | column name =>
        have hkey := isPrimaryKey_lowercase (s.page 0) n name
        simp only [Option.map_some, Expr.lowered, buildSource, Expr.asEquals, Expr.asColumn,
          ok_bind, hkey]
        cases isPrimaryKey (s.page 0) n name with
        | error f => rfl
        | ok b =>
          rw [ok_bind, ok_bind, Expr.asLiteralInt_lowered]
          cases b with
          | false => rfl
          | true => cases right.asLiteralInt <;> rfl
      | _ => rfl
    | _ => rfl

theorem buildPlan_lowered (s : Pager) (tree : AstNode) (table : Table) :
    buildPlan s tree.lowered table.lowered = (buildPlan s tree table).map PlanNode.lowered := by
  unfold buildPlan
  rw [findTable_lowered]
  cases findTable (s.page 0) table.tableName with
  | error f => rfl
  | ok n =>
    cases tree with
    | select name isStar columns where_ =>
      dsimp only [AstNode.lowered, ok_bind, Table.lowered_rootPageNum]
      rw [buildSource_lowered, List.length_map]
      cases buildSource s n table.rootPageNum (catalogNodeRowSize (s.page 0) n) where_ with
      | error f => rfl
      | ok source =>
        by_cases hpos : columns.length > 0
        · simp only [Except.map, ok_bind, if_pos hpos]
          rfl
        · simp only [Except.map, ok_bind, if_neg hpos]
          rfl
    | _ => rfl

theorem columnExists_lowered (catalog : Page) (n : ℕ) (column : Expr) :
    columnExists catalog n column.lowered = columnExists catalog n column := by
  unfold columnExists
  simp only [columnNameIs_lowered]

/-- Nothing is said about the columns, or the same but for the case of the names. -/
inductive ComplaintsAlike : Option (List UInt8) → Option (List UInt8) → Prop
  | none : ComplaintsAlike none none
  | missing {column column' table table' : List UInt8} : lowercase column = lowercase column' →
      lowercase table = lowercase table' →
      ComplaintsAlike (some (noSuchColumn column table)) (some (noSuchColumn column' table'))

theorem missingColumn_lowered (table : Table) (column : Expr) :
    Related Eq ComplaintsAlike
      (missingColumn table.lowered column.lowered >>= fun text => pure (some text))
      (missingColumn table column >>= fun text => pure (some text)) := by
  unfold missingColumn
  rw [Expr.asColumn_lowered]
  cases column.asColumn with
  | error f => exact .error rfl
  | ok name => exact .ok (.missing (lowercase_lowercase name) (lowercase_lowercase _))

theorem missingColumns_lowered (catalog : Page) (table : Table) (n : ℕ) (columns : List Expr) :
    Related Eq ComplaintsAlike (missingColumns catalog table.lowered n (columns.map Expr.lowered))
      (missingColumns catalog table n columns) := by
  induction columns with
  | nil => exact .ok .none
  | cons column columns ih =>
    rw [List.map_cons]
    unfold missingColumns
    rw [columnExists_lowered]
    cases columnExists catalog n column with
    | error f => exact .error rfl
    | ok b =>
      cases b with
      | true => exact ih
      | false => exact missingColumn_lowered table column

theorem validateColumns_lowered (s : Pager) (table : Table) (n : ℕ) (columns : List Expr)
    (where_ : Option Expr) :
    Related Eq ComplaintsAlike
      (validateColumns s table.lowered n (columns.map Expr.lowered) (where_.map Expr.lowered))
      (validateColumns s table n columns where_) := by
  have hcolumns := missingColumns_lowered (s.page 0) table n columns
  unfold validateColumns
  cases where_ with
  | none => exact hcolumns
  | some condition =>
    cases condition with
    | equals left right =>
      simp only [Option.map_some, Expr.lowered, Expr.asEquals, ok_bind, columnExists_lowered]
      cases columnExists (s.page 0) n left with
      | error f => exact .error rfl
      | ok b =>
        cases b with
        | true => exact hcolumns
        | false => exact missingColumn_lowered table left
    | _ => exact .error rfl

theorem buildCursor_lowered (plan : PlanNode) :
    buildCursor plan.lowered = (buildCursor plan).map Cursor.lowered := by
  induction plan with
  | tableScan | pkLookup | insert => rfl
  | filter child condition ih =>
    simp only [PlanNode.lowered, buildCursor, ih]
    cases buildCursor child <;> rfl
  | projection child columns ih =>
    simp only [PlanNode.lowered, buildCursor, ih]
    cases buildCursor child <;> rfl

theorem projectColumn_lowered (catalog : Page) (n : ℕ) (column : Expr) (j : ℕ) (vs : List Value) :
    projectColumn catalog n column.lowered j vs = projectColumn catalog n column j vs := by
  induction vs generalizing j with
  | nil => rfl
  | cons v vs ih =>
    unfold projectColumn
    rw [columnNameIs_lowered, ih]

theorem projectRow_lowered (catalog : Page) (n : ℕ) (row : Row) (columns : List Expr) :
    projectRow catalog n row (columns.map Expr.lowered) = projectRow catalog n row columns := by
  induction columns with
  | nil => rfl
  | cons column columns ih =>
    rw [List.map_cons]
    unfold projectRow
    rw [projectColumn_lowered, ih]

/-- The cursor of a result in lower case. -/
def loweredResult (r : CursorResult) : CursorResult := (r.1, r.2.1.lowered, r.2.2)

theorem tableScanNext_lowered (s : Pager) (table : Table) (page cell rowSize : ℕ) (done : Bool) :
    tableScanNext s table.lowered page cell rowSize done =
      (tableScanNext s table page cell rowSize done).map loweredResult := by
  have hread : ∀ (s : Pager) (leaf cell : ℕ),
      (deserializeRow s table (s.page leaf) (leafNodeValue cell rowSize) >>= fun row =>
        (pure (some row, .tableScan leaf (cell + 1) rowSize done, s) : Exec CursorResult)) =
      (deserializeRow s table (s.page leaf) (leafNodeValue cell rowSize) >>= fun row =>
        (pure (some row, .tableScan leaf (cell + 1) rowSize done, s) : Exec CursorResult)).map
          loweredResult := by
    intro s leaf cell
    cases deserializeRow s table (s.page leaf) (leafNodeValue cell rowSize) <;> rfl
  unfold tableScanNext
  simp only [deserializeRow_lowered]
  split
  · rfl
  cases pagerGetPage s page with
  | none => rfl
  | some s₁ =>
    dsimp only
    generalize (if nodeType (s₁.page page) = nodeInternal then 0 else cell) = start
    cases firstLeaf walkFuel s₁ page with
    | error f => rfl
    | ok found =>
      obtain ⟨leaf, s₂⟩ := found
      cases leaf with
      | none => rfl
      | some leaf =>
        rw [ok_bind]
        dsimp only
        split
        · split
          · rfl
          · cases pagerGetPage s₂ (nextLeaf (s₂.page leaf)) with
            | none => rfl
            | some s₃ => exact hread s₃ _ 0
        · exact hread s₂ leaf start

theorem pkLookupNext_lowered (s : Pager) (table : Table) (root : ℕ) (key : Int64) (rowSize : ℕ)
    (done : Bool) :
    pkLookupNext s table.lowered root key rowSize done =
      (pkLookupNext s table root key rowSize done).map loweredResult := by
  unfold pkLookupNext
  simp only [deserializeRow_lowered]
  split
  · rfl
  cases pagerGetPage s root with
  | none => rfl
  | some s₁ =>
    dsimp only
    cases leafNodeForKey key walkFuel s₁ root with
    | error f => rfl
    | ok found =>
      obtain ⟨leaf, s₂⟩ := found
      cases leaf with
      | none => rfl
      | some leaf =>
        rw [ok_bind]
        dsimp only
        split
        · rfl
        · cases deserializeRow s₂ table (s₂.page leaf)
            (leafNodeValue (leafNodeFind (s₂.page leaf) key rowSize) rowSize) <;> rfl

/-- **A cursor goes on in the same way.** -/
theorem cursorNext_lowered (table : Table) (fuel : ℕ) (cursor : Cursor) (s : Pager) :
    cursorNext table.lowered fuel cursor.lowered s =
      (cursorNext table fuel cursor s).map loweredResult := by
  induction fuel generalizing cursor s with
  | zero => rfl
  | succ fuel ih =>
    cases cursor with
    | tableScan page cell rowSize done => exact tableScanNext_lowered s table page cell rowSize done
    | pkLookup root key rowSize done => exact pkLookupNext_lowered s table root key rowSize done
    | filter child condition =>
      have hmatches : ∀ row catalog n, rowMatchesWhere (some condition.lowered) row catalog n =
          rowMatchesWhere (some condition) row catalog n := rowMatchesWhere_lowered (some condition)
      simp only [Cursor.lowered, cursorNext, findTable_lowered, ih, hmatches]
      cases findTable (s.page 0) table.tableName with
      | error f => rfl
      | ok n =>
        cases cursorNext table fuel child s with
        | error f => rfl
        | ok r =>
          obtain ⟨row, child', s'⟩ := r
          cases row with
          | none => rfl
          | some row =>
            simp only [ok_bind, Except.map, loweredResult]
            cases rowMatchesWhere (some condition) row (s'.page 0) n with
            | error f => rfl
            | ok b =>
              cases b with
              | true => rfl
              | false => exact ih (.filter child' condition) s'
    | projection child columns =>
      simp only [Cursor.lowered, cursorNext, findTable_lowered, ih, projectRow_lowered]
      cases cursorNext table fuel child s with
      | error f => rfl
      | ok r =>
        obtain ⟨row, child', s'⟩ := r
        cases row with
        | none => rfl
        | some row =>
          simp only [ok_bind, Except.map, loweredResult]
          cases findTable (s'.page 0) table.tableName with
          | error f => rfl
          | ok n =>
            rw [ok_bind, ok_bind]
            cases projectRow (s'.page 0) n row columns <;> rfl

/-- **A cursor delivers the same rows.** -/
theorem drain_lowered (table : Table) (fuel : ℕ) (cursor : Cursor) (s : Pager) :
    drain table.lowered fuel cursor.lowered s = drain table fuel cursor s := by
  induction fuel generalizing cursor s with
  | zero => rfl
  | succ fuel ih =>
    unfold drain
    rw [cursorNext_lowered]
    cases cursorNext table scanFuel cursor s with
    | error f => rfl
    | ok r =>
      obtain ⟨row, cursor', s'⟩ := r
      simp only [Except.map, loweredResult, ok_bind]
      cases row with
      | none => rfl
      | some row => simp only [ih]

theorem noSuchColumn_alike {column column' table table' : List UInt8}
    (hcolumn : lowercase column = lowercase column') (htable : lowercase table = lowercase table') :
    RefusalsAlike
      ⟨.commandSuccess, [noSuchColumn column table ++ ascii "Column(s) entered do not exist!"]⟩
      ⟨.commandSuccess,
        [noSuchColumn column' table' ++ ascii "Column(s) entered do not exist!"]⟩ := by
  refine ⟨rfl, ?_, .selected column table, .selected column' table'⟩
  simp only [noSuchColumn, List.map_cons, lowercase_append, hcolumn, htable]

theorem selectCommand_lowered (s : Pager) (table : Table) (n : ℕ) (tree : AstNode)
    (columns : List Expr) (where_ : Option Expr) :
    Alike s (selectCommand s table.lowered n tree.lowered (columns.map Expr.lowered)
      (where_.map Expr.lowered)) (selectCommand s table n tree columns where_) := by
  have hplan : Related Eq (fun a b => a = PlanNode.lowered b)
      (buildPlan s tree.lowered table.lowered) (buildPlan s tree table) := by
    rw [buildPlan_lowered]
    cases buildPlan s tree table with
    | error f => exact .error rfl
    | ok plan => exact .ok rfl
  have hvalid : Related Eq ComplaintsAlike
      (if (where_.map Expr.lowered).isSome ∨ (columns.map Expr.lowered).length > 0 then
        validateColumns s table.lowered n (columns.map Expr.lowered) (where_.map Expr.lowered)
        else pure none)
      (if where_.isSome ∨ columns.length > 0 then validateColumns s table n columns where_
        else pure none) :=
    Related.ite (by rw [Option.isSome_map, List.length_map])
      (fun _ => validateColumns_lowered s table n columns where_) fun _ => .ok .none
  unfold selectCommand
  refine Alike.of_related hplan ?_
  rintro _ plan rfl
  refine Alike.of_related hvalid fun x y hxy => ?_
  cases hxy with
  | none =>
    dsimp only
    rw [buildCursor_lowered]
    cases buildCursor plan with
    | error f => exact Alike.refl (.error f)
    | ok cursor =>
      simp only [Except.map, ok_bind, drain_lowered]
      exact Alike.refl _
  | missing hcolumn htable =>
    dsimp only
    exact Or.inr ⟨_, _, rfl, rfl, noSuchColumn_alike hcolumn htable⟩

/-- **A statement whose names are in lower case** does the same, or it is refused alike. -/
theorem execute_lowered (s : Pager) (tree : AstNode) :
    Alike s (execute s tree.lowered) (execute s tree) := by
  have hfind : catalogNodeFindTable (s.page 0) tree.lowered.table =
      catalogNodeFindTable (s.page 0) tree.table := by
    cases tree with
    | createTable => rfl
    | _ => exact catalogNodeFindTable_lowercase (s.page 0) _
  unfold execute
  rw [hfind]
  refine Alike.bind _ fun found => ?_
  cases found with
  | none =>
    cases tree with
    | _ => exact Alike.refl _
  | some n =>
    cases tree with
    | createTable name definitions => exact Alike.refl _
    | insert name values => exact Or.inl (insertCommand_lowered s (openTable s n name) name values)
    | updateTable name columns values where_ =>
      exact updateCommand_lowered s (openTable s n name) name columns values where_
    | deleteTable name where_ =>
      have hrun := deleteCommand_lowered s (openTable s n name) name where_
      exact Or.inl (congrArg (· >>= fun r => pure (quiet r)) hrun)
    | select name isStar columns where_ =>
      exact selectCommand_lowered s (openTable s n name) n (.select name isStar columns where_)
        columns where_

end MiniDB
