import MiniDB.Sessions.Frames
import MiniDB.Statements.Names

/-!
# What a `CREATE TABLE` stores

The catalog has 32 bytes for a name and stores no length.  A column name of 32 bytes passes the test
for its length, and the length of a table name is not tested at all; neither is followed by a
terminator, and a table name runs over the fields behind it.

* `StoredExactly`: the entry says what the definition says, and no other byte was written.
* `Created.storedExactly_iff`: so it is when all names are short and the field was clear.
* `UnendedName`, `ClearBehind`: the state of the catalog page in a run.
* `createTable_storedExactly_iff`: **names of fewer than 32 bytes are stored exactly**, and no
  others.
-/

namespace MiniDB

open BPlusTree Pager

/-- The entry of the new table, the one with number `n`, is read back as the definition, with the
root page `root`; the other bytes of the catalog page are as before, except for the count. -/
structure StoredExactly (p : Page) (n root : ℕ) (table : List UInt8)
    (definitions : List ColumnDefinition) (p' : Page) : Prop where
  name : decodeName (catalogNodeName p' n) = .ok table
  columnCount : catalogNodeColumnCount p' n = definitions.length
  columnNames : ∀ i (h : i < definitions.length),
    decodeName (columnName p' n i) = .ok definitions[i].name
  columnTypes : ∀ i (h : i < definitions.length),
    storedType p' n i = definitions[i].columnType.toByte
  primaryKey : ∃ d, definitions[catalogNodePrimaryKeyColumn p' n]? = some d ∧ d.isPrimary = true
  rootPage : catalogNodeRootPage p' n = root
  count : catalogNodeNumTables p' = n + 1
  others : ∀ k, catalogEntriesOffset ≤ k →
    k < catalogNodeTable n ∨ catalogNodeTable (n + 1) ≤ k → p' k = p k

variable {s s' : Pager} {ts ts' : List TableInfo} {tree : AstNode} {name : List UInt8}
  {definitions : List ColumnDefinition} {hv : ValidDefinitions definitions}

/-- What the schema says of the definitions. -/
theorem Created.columnTypes (h : Created s name definitions hv s') (i : ℕ)
    (hi : i < definitions.length) :
    storedType (s'.page 0) (catalogNodeNumTables (s.page 0)) i =
      definitions[i].columnType.toByte := by
  have hlen : i < (schemaOf definitions hv).types.length := by
    rwa [schemaOf, List.length_map]
  rw [h.describes.storedType hlen]
  simp only [schemaOf, List.getElem_map]

theorem Created.columnCount (h : Created s name definitions hv s') :
    catalogNodeColumnCount (s'.page 0) (catalogNodeNumTables (s.page 0)) = definitions.length := by
  rw [h.describes.columnCount, schemaOf, List.length_map]

/-- The primary key of valid definitions. -/
theorem ValidDefinitions.primary_getElem (hv : ValidDefinitions definitions) :
    ∃ d, definitions[primaryIndex definitions]? = some d ∧ d.isPrimary = true := by
  obtain ⟨l₁, d, l₂, rfl, -, hd, -, -, hindex⟩ := hv.split
  refine ⟨d, ?_, hd⟩
  rw [hindex, List.getElem?_append_right le_rfl, Nat.sub_self, List.getElem?_cons_zero]

theorem length_catalogNodeName (p : Page) (n : ℕ) :
    (catalogNodeName p n).length = columnNameSize := Mem.length_read ..

theorem drop_catalogNodeName (p : Page) (n : ℕ) {k : ℕ} (hk : k < columnNameSize) :
    (catalogNodeName p n).drop k =
      p (catalogNodeTable n + k) :: (catalogNodeName p n).drop (k + 1) := by
  rw [List.drop_eq_getElem_cons (by rwa [length_catalogNodeName])]
  congr 1
  exact Mem.getElem_read ..

/-- The name field of the new table when the name is shorter than the field. -/
theorem Created.name_of_lt (h : Created s name definitions hv s')
    (hlt : name.length < columnNameSize) :
    catalogNodeName (s'.page 0) (catalogNodeNumTables (s.page 0)) =
      name ++ s.page 0 (catalogNodeTable (catalogNodeNumTables (s.page 0)) + name.length) ::
        (catalogNodeName (s.page 0) (catalogNodeNumTables (s.page 0))).drop (name.length + 1) := by
  rw [h.name, ← drop_catalogNodeName _ _ hlt, List.take_of_length_le]
  rw [List.length_append, List.length_drop, length_catalogNodeName]
  omega

/-- **The byte behind the name decides** whether the name is read back. -/
theorem Created.decodeName_iff (h : Created s name definitions hv s') (hterm : 0 ∉ name) :
    decodeName (catalogNodeName (s'.page 0) (catalogNodeNumTables (s.page 0))) = .ok name ↔
      name.length < columnNameSize ∧
        s.page 0 (catalogNodeTable (catalogNodeNumTables (s.page 0)) + name.length) = 0 := by
  constructor
  · intro hok
    have hlt := length_lt_of_decodeName hok
    rw [length_catalogNodeName] at hlt
    obtain ⟨-, rest, hrest⟩ := decodeName_eq_ok_iff.mp hok
    rw [h.name_of_lt hlt] at hrest
    exact ⟨hlt, (List.cons.inj (List.append_cancel_left hrest)).1⟩
  · rintro ⟨hlt, hzero⟩
    rw [h.name_of_lt hlt, hzero]
    exact decodeName_append hterm _

/-- The column names of a table that was created, each of which fits into its field, are read back
unless one of them fills it. -/
theorem Created.columnNames_iff (h : Created s name definitions hv s')
    (hterm : ∀ d ∈ definitions, 0 ∉ d.name) :
    (∀ i (hi : i < definitions.length), decodeName
        (columnName (s'.page 0) (catalogNodeNumTables (s.page 0)) i) = .ok definitions[i].name) ↔
      ∀ d ∈ definitions, d.name.length < columnNameSize := by
  constructor
  · intro hall d hd
    obtain ⟨i, hi, rfl⟩ := List.getElem_of_mem hd
    have hlt := length_lt_of_decodeName (hall i hi)
    rwa [columnName, Mem.length_read] at hlt
  · intro hshort i hi
    have hmem := List.getElem_mem hi
    rw [h.columns i hi]
    exact decodeName_nameField (hshort _ hmem) (hterm _ hmem)

/-- **What decides whether a table is stored exactly**: the lengths of the names, and the byte of
the field behind the name of the table. -/
theorem Created.storedExactly_iff (h : Created s name definitions hv s') (hterm : 0 ∉ name)
    (hterms : ∀ d ∈ definitions, 0 ∉ d.name) :
    StoredExactly (s.page 0) (catalogNodeNumTables (s.page 0)) s.numPages name definitions
        (s'.page 0) ↔
      (name.length < columnNameSize ∧
        s.page 0 (catalogNodeTable (catalogNodeNumTables (s.page 0)) + name.length) = 0) ∧
      ∀ d ∈ definitions, d.name.length < columnNameSize := by
  rw [← h.decodeName_iff hterm, ← h.columnNames_iff hterms]
  constructor
  · exact fun hst => ⟨hst.name, hst.columnNames⟩
  · rintro ⟨hname, hnames⟩
    have hlt := ((h.decodeName_iff hterm).mp hname).1
    refine ⟨hname, h.columnCount, hnames, h.columnTypes, ?_, h.rootPage, h.count, ?_⟩
    · rw [h.describes.primaryKey]
      exact hv.primary_getElem
    · rintro k hk (hlow | hhigh)
      · exact h.entries k hk hlow
      · refine h.behind ?_ k hhigh
        rw [columnNameSize] at hlt
        rw [tableEntrySize]
        omega

/-! ## Runs -/

/-- A statement that the parser returns, and that does not break off half way: an `INSERT` has pages
enough, and a `CREATE TABLE` is not refused over the length of a column name. -/
def Completes (s : Pager) (tree : AstNode) : Prop :=
  tree.CanFinish s ∧ tree.Scanned ∧ ∀ name definitions, tree = .createTable name definitions →
    ∀ d ∈ definitions, d.name.length ≤ columnNameSize

/-- The name of some table fills its field. -/
def UnendedName (p : Page) : Prop := ∃ i < catalogNodeNumTables p, 0 ∉ catalogNodeName p i

/-- The bytes behind the last entry are zero. -/
def ClearBehind (p : Page) : Prop :=
  ∀ k, catalogNodeTable (catalogNodeNumTables p) ≤ k → k < pageSize → p k = 0

/-- Behind a name that fills its field no name is found to be free. -/
theorem UnendedName.find_ne {p : Page} (h : UnendedName p) (name : List UInt8) :
    catalogNodeFindTable p name ≠ .ok none := by
  obtain ⟨i, hi, hterm⟩ := h
  intro hnone
  have htest := findFirst_eq_none hnone i (List.mem_range.mpr hi)
  rw [nameEquals_eq, decodeName_of_notMem hterm] at htest
  cases htest

/-- **A table that was created** leaves the bytes behind it clear, or its name fills its field. -/
theorem Created.clearBehind (h : Created s name definitions hv s') (hterm : 0 ∉ name)
    (hclear : ClearBehind (s.page 0)) : UnendedName (s'.page 0) ∨ ClearBehind (s'.page 0) := by
  rcases lt_or_ge name.length columnNameSize with hlt | hge
  · right
    intro k hk hpage
    rw [h.count] at hk
    rw [columnNameSize] at hlt
    rw [h.behind (by rw [tableEntrySize]; omega) k hk]
    refine hclear k (le_trans ?_ hk) hpage
    simp only [catalogNodeTable_eq]
    omega
  · left
    refine ⟨_, by rw [h.count]; exact Nat.lt_succ_self _, ?_⟩
    rw [h.name, List.take_append_of_le_length hge]
    exact fun hmem => hterm (List.mem_of_mem_take hmem)

/-- **The catalog page in a run.** -/
theorem Reachable.catalog (h : Reachable Completes s) :
    ∃ ts, Database s ts ∧ (UnendedName (s.page 0) ∨ ClearBehind (s.page 0)) := by
  refine h.invariant (P := fun s _ => UnendedName (s.page 0) ∨ ClearBehind (s.page 0))
    (fun s tree hok => hok.1) ?_ ?_
  · intro s hopen
    obtain ⟨s₀, hopen₀, -, -, hzero, -⟩ := openDatabase_empty
    obtain rfl := Option.some_inj.mp (hopen₀.symm.trans hopen)
    exact Or.inr fun k _ hk => hzero k hk
  · rintro s tree s' ts ts' hdb - hP ⟨-, hscan, hlen⟩ - hchange
    rcases hchange.catalog hdb with hsame | ⟨name, definitions, rfl, hlong | ⟨hv, hc⟩⟩
    · rwa [hsame]
    · obtain ⟨d, hd, hlong⟩ := hlong
      exact absurd (hlen _ _ rfl d hd) (not_le.mpr hlong)
    · rcases hP with ⟨i, hi, hterm⟩ | hclear
      · refine Or.inl ⟨i, by rw [hc.count]; omega, ?_⟩
        rwa [hc.name_eq hi]
      · exact hc.clearBehind hscan.1.zero_notMem hclear

/-- A `CREATE TABLE` that adds to the count was carried out, under a name that was free. -/
theorem CarriesOut.created (hdb : Database s ts)
    (hstep : CarriesOut s (.createTable name definitions) s')
    (hcount : catalogNodeNumTables (s.page 0) < catalogNodeNumTables (s'.page 0)) :
    catalogNodeFindTable (s.page 0) name = .ok none ∧ ∃ hv, Created s name definitions hv s' := by
  obtain ⟨hv, o, hrun⟩ := hstep
  unfold execute at hrun
  obtain ⟨found, hfind, hrun⟩ := bind_eq_ok hrun
  cases found with
  | some n =>
    cases hrun
    exact absurd hcount (lt_irrefl _)
  | none =>
    refine ⟨hfind, hv, ?_⟩
    have hcreate : createTable s name definitions = .ok (o, s') := hrun
    have hout := createTable_spec hdb.sound hdb.pos name hv
    rw [hcreate] at hout
    cases hout with
    | full => exact absurd hcount (lt_irrefl _)
    | refused _ _ _ hbytes => exact absurd hcount (numTables_congr hbytes).not_gt
    | created _ hc => exact hc

/-- **A `CREATE TABLE` is stored exactly and alone** just when all of its names have fewer than 32
bytes. -/
theorem createTable_storedExactly_iff (h : Reachable Completes s)
    (hscan : (AstNode.createTable name definitions).Scanned)
    (hstep : CarriesOut s (.createTable name definitions) s')
    (hcount : catalogNodeNumTables (s.page 0) < catalogNodeNumTables (s'.page 0)) :
    StoredExactly (s.page 0) (catalogNodeNumTables (s.page 0)) s.numPages name definitions
        (s'.page 0) ↔
      name.length < columnNameSize ∧ ∀ d ∈ definitions, d.name.length < columnNameSize := by
  obtain ⟨ts, hdb, hpage⟩ := h.catalog
  obtain ⟨hfind, hv, hc⟩ := hstep.created hdb hcount
  rw [hc.storedExactly_iff hscan.1.zero_notMem fun d hd => (hscan.2 d hd).zero_notMem]
  have hclear : ClearBehind (s.page 0) :=
    hpage.resolve_left fun hname => hname.find_ne name hfind
  constructor
  · exact fun hall => ⟨hall.1.1, hall.2⟩
  · rintro ⟨hlt, hnames⟩
    refine ⟨⟨hlt, hclear _ (Nat.le_add_right ..) ?_⟩, hnames⟩
    have hroom := hc.room
    rw [columnNameSize] at hlt
    rw [maxCatalogTables] at hroom
    rw [catalogNodeTable_eq, pageSize]
    omega

/-- The first table of a new database, with a column name that has 32 bytes or fewer. -/
theorem exists_firstTable (definitions : List ColumnDefinition) (hname : Storable name)
    (hv : ValidDefinitions definitions)
    (hnames : ∀ d ∈ definitions, d.name.length ≤ columnNameSize) :
    ∃ s s', Reachable Completes s ∧ CarriesOut s (.createTable name definitions) s' ∧
      catalogNodeNumTables (s.page 0) < catalogNodeNumTables (s'.page 0) ∧
      catalogNodeNumTables (s.page 0) = 0 ∧ ∀ i (h : i < definitions.length),
        columnName (s'.page 0) 0 i = nameField definitions[i].name := by
  obtain ⟨s, s', hopen, hrun, htable, -⟩ := execute_create hname hv hnames
  have hdb : Database s [] := by
    obtain ⟨s₁, hopen₁, h⟩ := database_empty
    rwa [Option.some_inj.mp (hopen.symm.trans hopen₁)]
  refine ⟨s, s', ⟨s, hopen, Runs.Reached.refl s⟩, ⟨hv, _, hrun⟩, ?_, hdb.count, htable.columns⟩
  rw [hdb.count, htable.database.count]
  exact Nat.one_pos

/-- The table of the notes. -/
theorem createTable_storedExactly_iff_notes : ∃ s s', Reachable Completes s ∧
    CarriesOut s (.createTable notesName notes) s' ∧
      StoredExactly (s.page 0) (catalogNodeNumTables (s.page 0)) s.numPages notesName notes
        (s'.page 0) := by
  obtain ⟨s, s', h, hstep, hcount, -⟩ :=
    exists_firstTable notes storable_notesName validNotes (by decide)
  have hscan : (AstNode.createTable notesName notes).Scanned := by
    refine ⟨⟨by decide, by decide⟩, ?_⟩
    intro d hd
    exact ⟨by revert d; decide, by revert d; decide⟩
  refine ⟨s, s', h, hstep, (createTable_storedExactly_iff h hscan hstep hcount).mpr ?_⟩
  decide

/-- A single column, whose name fills its field. -/
def wide : List ColumnDefinition := [⟨List.replicate 32 97, .columnInteger, true⟩]

/-- A column name of 32 bytes passes the test of its length, and is not read back. -/
theorem not_storedExactly_wide : ∃ s s', Reachable Completes s ∧
    (AstNode.createTable notesName wide).Scanned ∧ CarriesOut s (.createTable notesName wide) s' ∧
      catalogNodeNumTables (s.page 0) < catalogNodeNumTables (s'.page 0) ∧
      ¬ StoredExactly (s.page 0) (catalogNodeNumTables (s.page 0)) s.numPages notesName wide
        (s'.page 0) := by
  obtain ⟨s, s', h, hstep, hcount, hzero, hcolumns⟩ :=
    exists_firstTable wide storable_notesName ⟨by decide, _, rfl, rfl⟩ (by decide)
  refine ⟨s, s', h, ?_, hstep, hcount, ?_⟩
  · refine ⟨⟨by decide, by decide⟩, ?_⟩
    intro d hd
    exact ⟨by revert d; decide, by revert d; decide⟩
  · intro hst
    have hname := hst.columnNames 0 (by decide)
    rw [hzero, hcolumns 0 (by decide), decodeName_of_notMem (by decide)] at hname
    cases hname

end MiniDB
