import MiniDB.Sessions.Reachable
import MiniDB.Statements.Names

/-!
# Databases of one table

A table that was created in a new database, and the statements on it, step by step: where
`execute_change` says what a statement has done, the lemmas here say what it will do.

* `OneTable`: the database.
* `execute_create`: the table is created.
* `OneTable.insert`, `OneTable.delete`, `OneTable.update`: **the next statement**.
-/

namespace MiniDB

open BPlusTree Pager

/-- A new database in which one table was created, whose tree is now `t`. -/
structure OneTable (s : Pager) (name : List UInt8) (definitions : List ColumnDefinition)
    (hv : ValidDefinitions definitions) (t : PageTreeAny) : Prop where
  database : Database s [⟨schemaOf definitions hv, t⟩]
  find : catalogNodeFindTable (s.page 0) name = .ok (some 0)
  columns : ∀ i (h : i < definitions.length),
    columnName (s.page 0) 0 i = nameField definitions[i].name

/-- A name that can be stored and found again. -/
def Storable (name : List UInt8) : Prop := name.length < columnNameSize ∧ 0 ∉ name

instance (name : List UInt8) : Decidable (Storable name) :=
  inferInstanceAs (Decidable (_ ∧ _))

variable {s s' : Pager} {name : List UInt8} {definitions : List ColumnDefinition}
  {hv : ValidDefinitions definitions} {t : PageTreeAny} {M : Set ℕ}

/-- The first name field of a page of zeros. -/
theorem catalogNodeName_of_zero {p : Page} (h : ∀ i < pageSize, p i = 0) :
    catalogNodeName p 0 = List.replicate columnNameSize 0 := by
  refine (Mem.read_eq_iff (List.length_replicate ..)).mpr ?_
  intro i hi
  rw [List.length_replicate] at hi
  rw [List.getElem_replicate]
  refine h _ ?_
  rw [catalogNodeTable_eq, tableNameOffset, pageSize]
  omega

/-- **The first table of a new database.** -/
theorem execute_create {name : List UInt8} (hname : Storable name)
    (hv : ValidDefinitions definitions)
    (hnames : ∀ d ∈ definitions, d.name.length ≤ columnNameSize) :
    ∃ s₀ s', openDatabase Disk.empty = some s₀ ∧
      execute s₀ (.createTable name definitions) = .ok (⟨.commandSuccess, []⟩, s') ∧
      OneTable s' name definitions hv ⟨0, .leaf 1 []⟩ ∧ s'.numPages = 2 ∧
      (∃ p, s'.page 1 = leafNodeInit p) ∧ catalogNodeName (s'.page 0) 0 = nameField name := by
  obtain ⟨s, hopen, hsound, hnum, hzero, -⟩ := openDatabase_empty
  have hcount := numTables_of_zero hzero
  have hnone : catalogNodeFindTable (s.page 0) name = .ok none := by
    rw [catalogNodeFindTable, hcount]
    rfl
  have hlen := hname.1.le
  obtain ⟨s', hr, hc⟩ := createTable_created hsound (by omega) (by rw [hcount]; decide)
    (by rw [hnum]; decide) hlen hv hnames
  have hdb : Database s [] := by
    obtain ⟨s₁, hopen₁, h⟩ := database_empty
    rwa [Option.some_inj.mp (hopen.symm.trans hopen₁)]
  have hdb' := hdb.created hc
  have hroot := hc.root
  rw [hnum] at hdb' hroot
  rw [List.nil_append] at hdb'
  have hcolumns := hc.columns
  have hcount' := hc.count
  have hnum' := hc.numPages
  rw [hcount] at hcolumns hcount'
  have hfield : catalogNodeName (s'.page 0) 0 = nameField name := by
    have hstored := hc.name
    rw [hcount, catalogNodeName_of_zero hzero, List.drop_replicate] at hstored
    rw [hstored, ← nameField]
    exact List.take_of_length_le (length_nameField hlen).le
  refine ⟨s, s', hopen, ?_, ⟨hdb', ?_, hcolumns⟩, by omega, hroot, hfield⟩
  · rw [execute_createTable hnone, hr]
  · rw [catalogNodeFindTable, hcount']
    show (nameEquals name (catalogNodeName (s'.page 0) 0) >>= _) = _
    rw [hfield, nameEquals_nameField hname.1 hname.2, beq_self_eq_true, beq_self_eq_true]
    rfl

/-- The table of the database. -/
theorem OneTable.holds (h : OneTable s name definitions hv t) :
    Holds s (openTable s 0 name) 0 (schemaOf definitions hv) t := by
  obtain ⟨x, hx, hholds⟩ := h.database.holds h.find
  obtain rfl : ⟨schemaOf definitions hv, t⟩ = x := Option.some_inj.mp hx
  exact hholds

/-- Under another name there is no table. -/
theorem OneTable.findTable_other (h : OneTable s name definitions hv t) {other : List UInt8}
    (hne : lowercase other ≠ lowercase name) :
    catalogNodeFindTable (s.page 0) other = .ok none := by
  have hcount : catalogNodeNumTables (s.page 0) = 1 := h.database.count
  obtain ⟨-, -, -, htest, -⟩ := findFirst_eq_some h.find
  rw [nameEquals_eq] at htest
  obtain ⟨stored, hstored, htest⟩ := bind_eq_ok htest
  have hsame : lowercase name = lowercase stored := beq_iff_eq.mp (Except.ok.inj htest)
  have hother : nameEquals other (catalogNodeName (s.page 0) 0) = .ok false := by
    rw [nameEquals_of_decodeName hstored, ← hsame, beq_eq_false_iff_ne.mpr hne]
  rw [catalogNodeFindTable, hcount]
  show (nameEquals other (catalogNodeName (s.page 0) 0) >>= _) = _
  rw [hother]
  rfl

/-- A statement that rewrites the tree of the table. -/
theorem OneTable.replace (h : OneTable s name definitions hv t) {t' : PageTreeAny}
    (hev : Evolves s s' {q | q ∈ t.2.labels ∨ s.numPages ≤ q} M)
    (hrep : Represents s' (schemaOf definitions hv).rowSize t') (hpage : t'.2.page = t.2.page)
    (hlabels : ∀ q ∈ t'.2.labels, q ∈ t.2.labels ∨ s.numPages ≤ q) :
    OneTable s' name definitions hv t' := by
  have hzero : s'.page 0 = s.page 0 := by
    refine hev.page 0 ?_
    rintro (hq | hq)
    · exact h.holds.represents.zero hq
    · exact absurd h.database.pos (not_lt.mpr hq)
  refine ⟨h.database.replace (n := 0) rfl hev hrep hpage hlabels, ?_, ?_⟩
  · rw [hzero]
    exact h.find
  · rw [hzero]
    exact h.columns

/-- What inserting the values makes of the table, on pages from `fresh` on. -/
abbrev afterInsert (definitions : List ColumnDefinition) (fresh : ℕ) (key : Int64)
    (values : List Expr) (t : PageTreeAny) : PageTreeAny × ℕ :=
  insertRoot (leafNodeMaxCells (rowWidth (definitions.map ColumnDefinition.columnType)))
    internalNodeMaxKeys key (rowBytes (insertedRow values).values) fresh t

/-- **The next `INSERT`.** -/
theorem OneTable.insert (h : OneTable s name definitions hv t) {values : List Expr} {key : Int64}
    (hm : Matches (schemaOf definitions hv) values) (hfit : TextsFit values)
    (hkey : values[primaryIndex definitions]? = some (.literalInt key))
    (hnew : ∀ a ∈ (t.2.leafFor key).cells, a.1 ≠ key)
    (hroom : (afterInsert definitions s.numPages key values t).2 ≤ tablesMaxPages) :
    (AstNode.insert name values).CanFinish s ∧
      ∃ s', execute s (.insert name values) = .ok (⟨.commandSuccess, []⟩, s') ∧
        OneTable s' name definitions hv (afterInsert definitions s.numPages key values t).1 ∧
        s'.numPages = (afterInsert definitions s.numPages key values t).2 := by
  have hholds := h.holds
  constructor
  · intro n hn
    rw [h.find] at hn
    cases hn
    exact (hholds.hasRoom hkey hroom).canFinish
  · obtain ⟨s', hrun, hnum, hev, hrep⟩ := insertCommand_inserted hholds hm hfit hkey hnew hroom
    refine ⟨s', ?_, h.replace hev hrep (page_insertRoot _ _) ?_, hnum⟩
    · rw [execute_insert h.find]
      exact hrun
    · intro q hq
      exact mem_labels_inserted hq

/-- The next `INSERT` of a run. -/
theorem OneTable.insert_next {ok : Pager → AstNode → Prop}
    (h : OneTable s name definitions hv t) (key : Int64) (hreach : Reachable ok s)
    {values : List Expr}
    (hok : (AstNode.insert name values).CanFinish s → ok s (.insert name values))
    (hm : Matches (schemaOf definitions hv) values) (hfit : TextsFit values)
    (hkey : values[primaryIndex definitions]? = some (.literalInt key))
    (hnew : ∀ a ∈ (t.2.leafFor key).cells, a.1 ≠ key) {t' : PageTreeAny} {pages : ℕ}
    (hins : afterInsert definitions s.numPages key values t = (t', pages))
    (hroom : pages ≤ tablesMaxPages) :
    ∃ s', Reachable ok s' ∧ OneTable s' name definitions hv t' ∧ s'.numPages = pages := by
  obtain ⟨hcan, s', hrun, h', hnum⟩ := h.insert hm hfit hkey hnew (by rw [hins]; exact hroom)
  rw [hins] at h' hnum
  have hstep : CarriesOut s (.insert name values) s' := ⟨trivial, _, hrun⟩
  exact ⟨s', hreach.tail (hok hcan) hstep, h', hnum⟩

/-- **The next `UPDATE`**, when the assignments pass the checks and no row stops it. -/
theorem OneTable.update (h : OneTable s name definitions hv t) {columns values : List Expr}
    {as : List (ℕ × Expr)} (hlen : columns.length = values.length)
    (hres : resolveAssignments (s.page 0) 0 (columns.zip values) = .ok (.ok as))
    (hfit : TextsFit (as.map Prod.snd)) (where_ : Option Expr)
    (hgood : ∀ f, ∀ c ∈ t.2.contents,
      ¬ Faulty (schemaOf definitions hv) (s.page 0) 0 where_ f c) :
    ∃ s', execute s (.updateTable name columns values where_) = .ok (⟨.commandSuccess, []⟩, s') ∧
      OneTable s' name definitions hv ⟨t.1, t.2.mapCells
        (List.map (updatedCell (schemaOf definitions hv) (s.page 0) 0 where_ as))⟩ := by
  rcases updateCommand_fits h.holds hlen hres where_ (fun _ _ => hfit) with ⟨f, ⟨c, hc, hbad⟩, -⟩ |
    ⟨-, s', hrun, hnum, hev, -, hrep⟩
  · exact absurd hbad (hgood f c hc)
  · refine ⟨s', ?_, h.replace (hev.mono (fun q hq => Or.inl hq) (Set.Subset.refl ∅)) hrep
      (Tree.page_mapCells _) ?_⟩
    · rw [execute_update h.find]
      exact hrun
    · intro q hq
      rw [Tree.labels_mapCells] at hq
      exact Or.inl hq

/-- **The next `DELETE`**, when no row stops it. -/
theorem OneTable.delete (h : OneTable s name definitions hv t) (where_ : Option Expr)
    (hgood : ∀ f, ∀ c ∈ t.2.contents,
      ¬ Faulty (schemaOf definitions hv) (s.page 0) 0 where_ f c) :
    ∃ s', execute s (.deleteTable name where_) = .ok (⟨.commandSuccess, []⟩, s') ∧
      OneTable s' name definitions hv
        ⟨t.1, t.2.mapCells (unselected (schemaOf definitions hv) (s.page 0) 0 where_)⟩ ∧
      s'.numPages = s.numPages := by
  rcases deleteCommand_spec h.holds where_ with ⟨f, ⟨c, hc, hbad⟩, -⟩ |
    ⟨-, s', hrun, hnum, hev, -, hrep⟩
  · exact absurd hbad (hgood f c hc)
  · refine ⟨s', ?_, h.replace (hev.mono (fun q hq => Or.inl hq) (Set.Subset.refl ∅)) hrep
      (Tree.page_mapCells _) ?_, hnum⟩
    · rw [execute_delete h.find]
      exact congrArg (Except.map quiet) hrun
    · intro q hq
      rw [Tree.labels_mapCells] at hq
      exact Or.inl hq

/-! ## A table with two rows to a leaf -/

def notesName : List UInt8 := ascii "notes"

/-- An INTEGER primary key and seven TEXT columns. -/
def notes : List ColumnDefinition :=
  ⟨ascii "id", .columnInteger, true⟩ ::
    [[97], [98], [99], [100], [101], [102], [103]].map fun name => ⟨name, .columnText, false⟩

/-- The row with the given key whose texts are empty. -/
def notesRow (key : Int64) : List Expr :=
  .literalInt key :: List.replicate 7 (.literalString [])

theorem validNotes : ValidDefinitions notes := by
  constructor
  · decide
  · exact ⟨_, rfl, rfl⟩

theorem leafNodeMaxCells_notes :
    leafNodeMaxCells (rowWidth (notes.map ColumnDefinition.columnType)) = 2 := by decide

theorem matches_notesRow (key : Int64) : Matches (schemaOf notes validNotes) (notesRow key) := by
  unfold Matches
  refine List.Forall₂.cons rfl ?_
  repeat' first | exact List.Forall₂.nil | refine List.Forall₂.cons rfl ?_

theorem textsFit_notesRow (key : Int64) : TextsFit (notesRow key) := by
  intro text htext
  rcases List.mem_cons.mp htext with h | h
  · cases h
  · have heq := List.eq_of_mem_replicate h
    cases heq
    exact Nat.zero_le _

theorem areScanned_notesRow (key : Int64) : AreScanned (notesRow key) := by
  intro text htext
  rcases List.mem_cons.mp htext with h | h
  · cases h
  · have heq := List.eq_of_mem_replicate h
    cases heq
    exact List.not_mem_nil

/-- The cell of a row. -/
def notesCell (key : Int64) : Cell := (key, rowBytes (insertedRow (notesRow key)).values)

theorem storable_notesName : Storable notesName := by decide

/-- The new table. -/
theorem exists_notes : ∃ s, Reachable Finishes s ∧
    OneTable s notesName notes validNotes ⟨0, .leaf 1 []⟩ ∧ s.numPages = 2 := by
  obtain ⟨s₀, s, hopen, hrun, h, hnum, -⟩ := execute_create storable_notesName validNotes
    (by decide)
  have hstep : CarriesOut s₀ (.createTable notesName notes) s := ⟨validNotes, _, hrun⟩
  have hok : Finishes s₀ (.createTable notesName notes) := trivial
  exact ⟨s, ⟨s₀, hopen, (Runs.Reached.refl s₀).tail hok hstep⟩, h, hnum⟩

/-- One more row. -/
theorem OneTable.insert_notes (h : OneTable s notesName notes validNotes t)
    (hreach : Reachable Finishes s) (key : Int64)
    (hnew : ∀ a ∈ (t.2.leafFor key).cells, a.1 ≠ key) (t' : PageTreeAny) (pages : ℕ)
    (hins : afterInsert notes s.numPages key (notesRow key) t = (t', pages))
    (hroom : pages ≤ tablesMaxPages) :
    ∃ s', Reachable Finishes s' ∧ OneTable s' notesName notes validNotes t' ∧
      s'.numPages = pages :=
  h.insert_next key hreach (fun hcan => hcan) (matches_notesRow key) (textsFit_notesRow key) rfl
    hnew hins hroom

/-- The row with the key `1` that has a text in its first column of texts. -/
def textRow (text : List UInt8) : List Expr :=
  .literalInt 1 :: .literalString text :: List.replicate 6 (.literalString [])

/-- The cell of that row. -/
def textCell (text : List UInt8) : Cell := (1, rowBytes (insertedRow (textRow text)).values)

theorem matches_textRow (text : List UInt8) :
    Matches (schemaOf notes validNotes) (textRow text) := by
  unfold Matches
  refine List.Forall₂.cons rfl ?_
  repeat' first | exact List.Forall₂.nil | refine List.Forall₂.cons rfl ?_

theorem mem_textRow {text text' : List UInt8} (h : .literalString text' ∈ textRow text) :
    text' = text ∨ text' = [] := by
  rcases List.mem_cons.mp h with h | h
  · cases h
  rcases List.mem_cons.mp h with h | h
  · cases h
    exact Or.inl rfl
  · have heq := List.eq_of_mem_replicate h
    cases heq
    exact Or.inr rfl

theorem textsFit_textRow {text : List UInt8} (hfit : text.length ≤ valueTextMaxLen) :
    TextsFit (textRow text) := by
  intro text' h
  rcases mem_textRow h with rfl | rfl
  · exact hfit
  · exact Nat.zero_le _

/-- The table with that row. -/
theorem exists_textRow (text : List UInt8) (hfit : text.length ≤ valueTextMaxLen) :
    ∃ s, Reachable Finishes s ∧
      OneTable s notesName notes validNotes ⟨0, .leaf 1 [textCell text]⟩ ∧ s.numPages = 2 := by
  obtain ⟨s₀, hreach₀, h₀, hnum₀⟩ := exists_notes
  refine h₀.insert_next 1 hreach₀ (fun hcan => hcan) (matches_textRow text)
    (textsFit_textRow hfit) rfl
    (fun a ha => absurd ha List.not_mem_nil) ?_ (by decide)
  rw [hnum₀]
  rfl

end MiniDB
