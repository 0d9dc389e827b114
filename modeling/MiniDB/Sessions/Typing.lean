import MiniDB.Cursors.Typing
import MiniDB.Sessions.Naming

/-!
# Which members a statement reads

A syntax tree is a tagged union, and what the parser returns is not always what the commands read it
as: any literal or column, alone or in an equality with another one, is a condition.

* `AstNode.ReadsTyped`: the condition of the statement has nodes of the right types, as far as it is
  read.
* `Database.execute_union_iff`: **otherwise, and only then, a member of another type is read**.
* `processCommand_union_iff`: the same for an input line.
-/

namespace MiniDB

open BPlusTree Pager

/-- The condition of a statement on the `n`-th table is readable, as far as the statement comes to
read it: a `DELETE` tests the rows there are, an `UPDATE` does so when its assignments pass the
check, and a `SELECT` reads the condition to choose its plan. -/
def AstNode.ReadsTypedAt (s : Pager) (n : ℕ) : AstNode → Prop
  | .insert _ _ => True
  | .createTable _ _ => True
  | .deleteTable _ where_ => HasRow s (catalogNodeRootPage (s.page 0) n) →
      Readable (s.page 0) n where_
  | .updateTable _ columns values where_ =>
      (∃ as, resolveAssignments (s.page 0) n (columns.zip values) = .ok (.ok as)) →
      HasRow s (catalogNodeRootPage (s.page 0) n) → Readable (s.page 0) n where_
  | .select name _ columns where_ => SelectReadable s (openTable s n name) n columns where_

/-- So it is if the table of the statement is found. -/
def AstNode.ReadsTyped (s : Pager) (tree : AstNode) : Prop :=
  ∀ n, catalogNodeFindTable (s.page 0) tree.table = .ok (some n) → tree.ReadsTypedAt s n

variable {s : Pager} {ts : List TableInfo} {tree : AstNode} {name : List UInt8} {n : ℕ}

/-- An `INSERT` checks its literals before it reads them. -/
theorem Holds.insertCommand_ne_union {table : Table} {σ : Schema} {t : PageTreeAny}
    (h : Holds s table n σ t) (values : List Expr) :
    insertCommand s table table.tableName values ≠ .error .unionMember := by
  by_cases hcan : CanFinish s table n values
  · obtain ⟨r, s', hrun, -⟩ := insertCommand_spec h hcan
    rw [hrun]
    rintro ⟨⟩
  · obtain ⟨s', hrun, -⟩ := insertCommand_exhausted h hcan
    rw [hrun]
    rintro ⟨⟩

/-- A command that prints nothing fails as it does. -/
theorem map_quiet_eq_error {x : Exec (CommandResult × Pager)} {f : Fault} :
    x.map quiet = .error f ↔ x = .error f := by
  cases x with
  | ok r => exact iff_of_false (by rintro ⟨⟩) (by rintro ⟨⟩)
  | error g => exact ⟨fun h => by rw [Except.error.inj h], fun h => by rw [h]; rfl⟩

/-- A statement on a table that is not found, or one whose name cannot be looked up. -/
theorem Database.execute_ne_union (h : Database s ts) (hparsed : tree.Parsed)
    (hno : ∀ n, catalogNodeFindTable (s.page 0) tree.table ≠ .ok (some n)) :
    execute s tree ≠ .error .unionMember := by
  intro herr
  unfold execute at herr
  rcases bind_eq_error herr with hfind | ⟨found, hfind, herr⟩
  · exact absurd (findFirst_fault (fun i f hf => nameEquals_fault hf) hfind) (by decide)
  cases found with
  | some n => exact hno n hfind
  | none =>
    cases tree with
    | createTable name definitions =>
      have hout := createTable_spec h.sound h.pos name hparsed
      have hcreate : createTable s name definitions = .error .unionMember := herr
      rw [hcreate] at hout
      cases hout
    | _ => cases herr

/-- **A statement reads a member of another type** just when its condition has nodes of the wrong
types where it is read. -/
theorem Database.execute_union_iff (h : Database s ts) (hparsed : tree.Parsed) :
    execute s tree = .error .unionMember ↔ ¬ tree.ReadsTyped s := by
  by_cases hno : ∀ n, catalogNodeFindTable (s.page 0) tree.table ≠ .ok (some n)
  · refine iff_of_false (h.execute_ne_union hparsed hno) fun hread => hread ?_
    exact fun n hn => absurd hn (hno n)
  push Not at hno
  obtain ⟨n, hfind⟩ := hno
  obtain ⟨x, -, hholds⟩ := h.holds hfind
  have hfound : tree.ReadsTyped s ↔ tree.ReadsTypedAt s n := by
    refine ⟨fun hall => hall n hfind, fun hn m hm => ?_⟩
    cases hfind.symm.trans hm
    exact hn
  rw [hfound]
  cases tree with
  | createTable name definitions =>
    replace hfind : catalogNodeFindTable (s.page 0) name = .ok (some n) := hfind
    rw [execute_createTable_found hfind]
    exact iff_of_false (by rintro ⟨⟩) fun hread => hread trivial
  | insert name values =>
    replace hfind : catalogNodeFindTable (s.page 0) name = .ok (some n) := hfind
    rw [execute_insert hfind]
    exact iff_of_false (hholds.insertCommand_ne_union values) fun hread => hread trivial
  | deleteTable name where_ =>
    replace hfind : catalogNodeFindTable (s.page 0) name = .ok (some n) := hfind
    have hcommand := hholds.deleteCommand_union_iff where_
    rw [← hholds.hasRow_iff, ← Classical.not_imp] at hcommand
    rw [execute_delete hfind, map_quiet_eq_error]
    exact hcommand
  | updateTable name columns values where_ =>
    replace hfind : catalogNodeFindTable (s.page 0) name = .ok (some n) := hfind
    have hcommand := hholds.updateCommand_union_iff where_ hparsed.1 hparsed.2
    rw [← hholds.hasRow_iff, ← Classical.not_imp, ← Classical.not_imp] at hcommand
    rw [execute_update hfind]
    exact hcommand
  | select name isStar columns where_ =>
    replace hfind : catalogNodeFindTable (s.page 0) name = .ok (some n) := hfind
    rw [execute_select hfind]
    exact hholds.selectCommand_union_iff hparsed name isStar

/-- **Running an input line reads no member of another type** just when the condition of its
statement has nodes of the right types where it is read. -/
theorem processCommand_union_iff (h : Reachable Finishes s) {line : List UInt8} {p : Parser}
    (hparse : parseStatement (parserInit line) = some (.ok (tree, p))) :
    processCommand s line ≠ .error .unionMember ↔ tree.ReadsTyped s := by
  obtain ⟨ts, hdb⟩ := h.database
  have hrun : processCommand s line = execute s tree := by
    unfold processCommand
    rw [hparse]
  rw [hrun]
  exact not_iff_comm.mp (hdb.execute_union_iff (parseStatement_parsed hparse)).symm

/-- A table with two rows, and the condition `id = 1`. -/
theorem processCommand_union_iff_notes : ∃ s, Reachable Finishes s ∧
    HasRow s (catalogNodeRootPage (s.page 0) 0) ∧
      processCommand s (ascii "DELETE FROM notes WHERE id = 1") ≠ .error .unionMember := by
  obtain ⟨s, hreach, h, -⟩ := exists_two
  have hrow : HasRow s (openTable s 0 notesName).rootPageNum :=
    h.holds.hasRow_iff.mpr (List.cons_ne_nil _ _)
  refine ⟨s, hreach, hrow, (processCommand_union_iff hreach (by rfl)).mpr ?_⟩
  intro n hn
  cases h.find.symm.trans hn
  intro _ i hi
  cases h.findColumn_id.symm.trans hi
  have htype : storedType (s.page 0) 0 0 = ColumnType.columnInteger.toByte :=
    h.holds.describes.storedType (i := 0) (by decide)
  rw [htype]
  rfl

/-- A condition that is no equality is read as one. -/
theorem not_processCommand_union : ∃ s, Reachable Finishes s ∧ ∃ tree p,
    parseStatement (parserInit (ascii "SELECT * FROM notes WHERE 5")) = some (.ok (tree, p)) ∧
      processCommand s (ascii "SELECT * FROM notes WHERE 5") = .error .unionMember := by
  obtain ⟨s, hreach, h, -⟩ := exists_notes
  obtain ⟨p, hparse⟩ : ∃ p, parseStatement (parserInit (ascii "SELECT * FROM notes WHERE 5")) =
      some (.ok (.select notesName true [] (some (.literalInt 5)), p)) := ⟨_, by rfl⟩
  refine ⟨s, hreach, _, p, hparse, ?_⟩
  unfold processCommand
  rw [hparse]
  refine (h.database.execute_union_iff (parseStatement_parsed hparse)).mpr ?_
  exact fun hread => hread 0 h.find

end MiniDB
