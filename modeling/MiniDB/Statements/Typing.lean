import MiniDB.Statements.Conditions
import MiniDB.Statements.Delete
import MiniDB.Statements.Lookup
import MiniDB.Statements.Update

/-!
# Conditions whose nodes have the right types

The parser lets any expression be a condition.  The test of a row reads it as an equality between a
column and a literal, and reads the literal as one of the type of the column.

* `Readable`: the conditions for which this is right.
* `rowMatchesWhere_union_iff`: **a test reads a member of another type just when the condition is
  not readable**.
* `Holds.deleteCommand_union_iff`, `Holds.updateCommand_union_iff`: so does a statement that tests a
  row.
-/

namespace MiniDB

open BPlusTree Pager

/-- The condition is absent, or it compares a column with a literal, which has the type of the
column if the table has that column. -/
def Readable (catalog : Page) (n : ℕ) : Option Expr → Prop
  | none => True
  | some (.equals (.column name) value) => ∀ i,
    catalogNodeFindColumn catalog n name = .ok (some i) →
      typeMatches (storedType catalog n i) value = true
  | some _ => False

variable {s : Pager} {table : Table} {catalog : Page} {n : ℕ} {σ : Schema} {t : PageTreeAny}
  {name : List UInt8} {value : Expr} {where_ : Option Expr} {row : Row} {c : Cell}

/-! ## One test -/

/-- A comparison reads the literal as one of the type of the value. -/
theorem valueMatches_union_iff {v : Value} : valueMatches value v = .error .unionMember ↔
    typeMatches v.columnType.toByte value = false := by
  cases v with
  | integer m => cases value <;>
      simp [valueMatches, Expr.asLiteralInt, typeMatches, Value.columnType, ColumnType.toByte, bind,
        Except.bind, pure, Except.pure]
  | boolean b => cases value <;>
      simp [valueMatches, Expr.asLiteralBoolean, typeMatches, Value.columnType, ColumnType.toByte,
        bind, Except.bind, pure, Except.pure]
  | text field length =>
    cases value with
    | literalString text =>
      refine iff_of_false ?_ ?_
      · intro h
        obtain h | ⟨m, -, h⟩ := bind_eq_error (show (strlen field.1 >>= _) = _ from h)
        · exact absurd (strlen_fault h) (by decide)
        · cases h
      · simp [typeMatches, Value.columnType]
    | _ => simp [valueMatches, literalStringEquals, Expr.asLiteralString, typeMatches,
        Value.columnType, ColumnType.toByte, bind, Except.bind]

/-- The loop over the values reads a member of another type when it compares the column that it has
found. -/
theorem rowMatchesFrom_union {k : ℕ} {vs : List Value}
    (h : rowMatchesFrom (.column name) value catalog n k vs = .error .unionMember) :
    ∃ i v, findFirst (fun j => nameEquals name (columnName catalog n j))
        (List.range' k vs.length) = .ok (some (k + i)) ∧
      vs[i]? = some v ∧ valueMatches value v = .error .unionMember := by
  induction vs generalizing k with
  | nil => cases h
  | cons w vs ih =>
    rw [rowMatchesFrom] at h
    rw [List.length_cons, List.range'_succ, findFirst]
    rcases bind_eq_error h with hname | ⟨b, hname, h⟩
    · exact absurd (nameEquals_fault hname) (by decide)
    · have hname' : nameEquals name (columnName catalog n k) = .ok b := hname
      rw [hname']
      cases b with
      | true => exact ⟨0, w, rfl, rfl, h⟩
      | false =>
        obtain ⟨i, v, hfind, hv, hunion⟩ := ih h
        refine ⟨i + 1, v, ?_, hv, hunion⟩
        rw [← Nat.add_assoc, Nat.add_right_comm]
        exact hfind

/-- **A test reads a member of another type** just when the condition is not readable. -/
theorem rowMatchesWhere_union_iff
    (htypes : row.values.map (fun v => v.columnType.toByte) = storedTypes catalog n)
    (hpos : 0 < catalogNodeColumnCount catalog n) :
    rowMatchesWhere where_ row catalog n = .error .unionMember ↔ ¬ Readable catalog n where_ := by
  have hlen := congrArg List.length htypes
  rw [List.length_map, storedTypes, List.length_map, List.length_range] at hlen
  obtain ⟨w, ws, hvalues⟩ : ∃ w ws, row.values = w :: ws :=
    List.exists_cons_of_length_pos (by omega)
  cases where_ with
  | none => exact iff_of_false (by rintro ⟨⟩) fun h => h trivial
  | some condition =>
    cases condition with
    | equals left value =>
      cases left with
      | column name =>
        show rowMatchesFrom (.column name) value catalog n 0 row.values = _ ↔ _
        have htype : ∀ {i v}, row.values[i]? = some v →
            v.columnType.toByte = storedType catalog n i := by
          intro i v hv
          obtain ⟨hi, hval⟩ := List.getElem?_eq_some_iff.mp hv
          have hget := List.getElem_of_eq htypes (i := i) (by rwa [List.length_map])
          rw [List.getElem_map, hval] at hget
          rw [hget]
          simp [storedTypes]
        constructor
        · intro h hread
          obtain ⟨i, v, hfind, hv, hunion⟩ := rowMatchesFrom_union h
          rw [Nat.zero_add, hlen, ← List.range_eq_range'] at hfind
          have hmatch := hread i hfind
          rw [← htype hv, valueMatches_union_iff.mp hunion] at hmatch
          exact absurd hmatch (by decide)
        · intro hread
          obtain ⟨i, hi⟩ := not_forall.mp hread
          obtain ⟨hfind, hmatch⟩ := Classical.not_imp.mp hi
          obtain ⟨hfound, hbefore⟩ := findColumn_tests hfind
          have hi : i < row.values.length := hlen ▸ List.mem_range.mp (findFirst_mem hfind)
          have hv : row.values[i]? = some row.values[i] := List.getElem?_eq_getElem hi
          rw [rowMatchesFrom_found hfound hbefore (Nat.zero_le i) hv]
          refine valueMatches_union_iff.mpr ?_
          rw [htype hv]
          exact Bool.eq_false_iff.mpr hmatch
      | _ =>
        refine iff_of_true ?_ fun h => h
        show rowMatchesFrom _ value catalog n 0 row.values = _
        rw [hvalues]
        rfl
    | _ => exact iff_of_true rfl fun h => h

/-! ## The statements that test rows -/

theorem Describes.columnCount_pos (h : Describes catalog n σ) :
    0 < catalogNodeColumnCount catalog n := by
  obtain ⟨hlt, -⟩ := List.getElem?_eq_some_iff.mp σ.integer
  rw [h.columnCount]
  omega

/-- The test of the row of a cell. -/
theorem faulty_union_iff (h : Describes catalog n σ) :
    Faulty σ catalog n where_ .unionMember c ↔ ¬ Readable catalog n where_ := by
  have hcolumns := congrArg (List.map ColumnType.toByte) (map_columnType_decodeValues σ.types c.2)
  rw [List.map_map] at hcolumns
  exact rowMatchesWhere_union_iff (hcolumns.trans h.types.symm) h.columnCount_pos

/-- When testing rows reads a member of another type, it is the condition that is to blame. -/
theorem Faulty.union_iff {f : Fault} (h : Faulty σ catalog n where_ f c)
    (hd : Describes catalog n σ) : f = .unionMember ↔ ¬ Readable catalog n where_ := by
  rw [← faulty_union_iff hd (c := c)]
  unfold Faulty at h ⊢
  rw [h]
  exact ⟨fun heq => by rw [heq], fun heq => Except.error.inj heq⟩

/-- **A `DELETE` reads a member of another type** just when it tests a row with a condition that is
not readable. -/
theorem Holds.deleteCommand_union_iff (h : Holds s table n σ t) (where_ : Option Expr) :
    deleteCommand s table table.tableName where_ = .error .unionMember ↔
      t.2.contents ≠ [] ∧ ¬ Readable (s.page 0) n where_ := by
  rcases deleteCommand_spec h where_ with ⟨f, ⟨c, hc, hbad⟩, herr⟩ | ⟨hgood, s', hrun, -⟩
  · rw [herr, ← hbad.union_iff h.describes]
    refine ⟨fun heq => ⟨List.ne_nil_of_mem hc, Except.error.inj heq⟩, fun heq => ?_⟩
    rw [heq.2]
  · rw [hrun]
    refine iff_of_false (by rintro ⟨⟩) ?_
    rintro ⟨hne, hread⟩
    obtain ⟨c, cs, hcons⟩ := List.exists_cons_of_ne_nil hne
    exact hgood .unionMember c (hcons ▸ List.mem_cons_self)
      ((faulty_union_iff h.describes).mpr hread)

/-- The check of the assigned columns reads names and literals only as such. -/
theorem resolveAssignments_ne_union {pairs : List (Expr × Expr)}
    (h : ∀ p ∈ pairs, ∃ name, p.1 = .column name) :
    resolveAssignments catalog n pairs ≠ .error .unionMember := by
  induction pairs with
  | nil => rintro ⟨⟩
  | cons p pairs ih =>
    obtain ⟨column, value⟩ := p
    obtain ⟨name, rfl⟩ : ∃ name, column = .column name := h (column, value) List.mem_cons_self
    intro herr
    rw [resolveAssignments] at herr
    rcases bind_eq_error herr with herr | ⟨name', hname, herr⟩
    · cases herr
    cases hname
    rcases bind_eq_error herr with herr | ⟨r, -, herr⟩
    · exact absurd (findFirst_fault (fun i f hf => nameEquals_fault hf) herr) (by decide)
    cases r with
    | none => cases herr
    | some i =>
      dsimp only at herr
      split at herr
      · rcases bind_eq_error herr with herr | ⟨r, -, herr⟩
        · exact ih (fun q hq => h q (List.mem_cons_of_mem _ hq)) herr
        · cases herr
      · cases herr

/-- **An `UPDATE` reads a member of another type** just when its assignments pass the check and it
tests a row with a condition that is not readable. -/
theorem Holds.updateCommand_union_iff (h : Holds s table n σ t) {columns values : List Expr}
    (where_ : Option Expr) (hcolumns : ∀ e ∈ columns, ∃ name, e = .column name)
    (hlen : columns.length = values.length) :
    updateCommand s table table.tableName columns values where_ = .error .unionMember ↔
      (∃ as, resolveAssignments (s.page 0) n (columns.zip values) = .ok (.ok as)) ∧
        t.2.contents ≠ [] ∧ ¬ Readable (s.page 0) n where_ := by
  by_cases hread : Readable (s.page 0) n where_
  · refine iff_of_false ?_ fun hno => hno.2.2 hread
    intro herr
    have hout := updateCommand_spec h columns values where_
    rw [herr] at hout
    cases hout with
    | unresolved hres =>
      refine resolveAssignments_ne_union ?_ hres
      intro p hp
      exact hcolumns p.1 (List.of_mem_zip hp).1
    | faulty _ hbad =>
      obtain ⟨c, -, hbad⟩ := hbad
      exact (faulty_union_iff h.describes).mp hbad hread
  · cases hres : resolveAssignments (s.page 0) n (columns.zip values) with
    | error f =>
      refine iff_of_false ?_ (by rintro ⟨⟨as, ⟨⟩⟩, -⟩)
      simp only [updateCommand, h.find, bind, Except.bind, hlen, ne_eq, not_true, if_false, hres]
      rintro ⟨⟩
      refine resolveAssignments_ne_union ?_ hres
      intro p hp
      exact hcolumns p.1 (List.of_mem_zip hp).1
    | ok r =>
      cases r with
      | error line =>
        refine iff_of_false ?_ (by rintro ⟨⟨as, ⟨⟩⟩, -⟩)
        simp only [updateCommand, h.find, bind, Except.bind, hlen, ne_eq, not_true, if_false, hres]
        rintro ⟨⟩
      | ok as =>
        -- no row passes the test, so that it does not matter which texts are assigned
        have hnone : ∀ c, selected σ (s.page 0) n where_ c = true → TextsFit (as.map Prod.snd) := by
          intro c hsel
          have hbad : testRow σ (s.page 0) n where_ c.2 = .error .unionMember :=
            (faulty_union_iff h.describes).mpr hread
          rw [selected, hbad] at hsel
          cases hsel
        rcases updateCommand_fits h hlen hres where_ hnone with
          ⟨f, ⟨c, hc, hbad⟩, herr⟩ | ⟨hgood, s', hrun, -⟩
        · obtain rfl := (hbad.union_iff h.describes).mpr hread
          exact iff_of_true herr ⟨⟨as, rfl⟩, List.ne_nil_of_mem hc, hread⟩
        · rw [hrun]
          refine iff_of_false (by rintro ⟨⟩) ?_
          rintro ⟨-, hne, -⟩
          obtain ⟨c, cs, hcons⟩ := List.exists_cons_of_ne_nil hne
          exact hgood .unionMember c (hcons ▸ List.mem_cons_self)
            ((faulty_union_iff h.describes).mpr hread)

/-! ## Tables with a row -/

/-- A leaf of the table has a cell. -/
def HasRow (s : Pager) (rootPageNum : ℕ) : Prop :=
  ∃ leaves, tableLeaves s rootPageNum = .ok leaves ∧ ∃ q ∈ leaves, numCells (s.page q) ≠ 0

theorem Holds.hasRow_iff (h : Holds s table n σ t) :
    HasRow s table.rootPageNum ↔ t.2.contents ≠ [] := by
  have hpages := h.represents.tableLeaves h.sound
  rw [h.root] at hpages
  have hcells : ∀ l ∈ t.2.leaves, numCells (s.page l.page) ≠ 0 ↔ l.cells ≠ [] := by
    intro l hl
    obtain ⟨e, hleaf⟩ := h.represents.stored.leafPage_of_mem hl
    rw [hleaf.length_cells, ne_eq, List.length_eq_zero_iff]
  constructor
  · rintro ⟨leaves, hrun, q, hq, hnum⟩
    rw [hpages] at hrun
    cases hrun
    obtain ⟨l, hl, rfl⟩ := List.mem_map.mp hq
    obtain ⟨c, cs, hcons⟩ := List.exists_cons_of_ne_nil ((hcells l hl).mp hnum)
    exact List.ne_nil_of_mem (mem_contents.mpr ⟨l, hl, hcons ▸ List.mem_cons_self⟩)
  · intro hne
    obtain ⟨c, cs, hcons⟩ := List.exists_cons_of_ne_nil hne
    obtain ⟨l, hl, hc⟩ := mem_contents.mp (hcons ▸ List.mem_cons_self : c ∈ t.2.contents)
    exact ⟨_, hpages, l.page, List.mem_map_of_mem hl,
      (hcells l hl).mpr (List.ne_nil_of_mem hc)⟩

end MiniDB
