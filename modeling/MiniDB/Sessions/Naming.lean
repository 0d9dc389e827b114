import MiniDB.Sessions.Creating
import MiniDB.Statements.Resolving

/-!
# The column names of the tables

A `CREATE TABLE` with two columns of one name is carried out, and so is one with a column name of 32
bytes; afterwards the loops that resolve names disagree.

* `NamesApart`: the definitions that avoid both.
* `Created.distinctNames`: such a table has distinct names.
* `reachable_resolversAgree`: **the resolvers agree in the runs that create no other tables**.
-/

namespace MiniDB

open BPlusTree Pager

/-- The column names have fewer than 32 bytes, and no two of them are the same. -/
structure NamesApart (definitions : List ColumnDefinition) : Prop where
  short : ∀ d ∈ definitions, d.name.length < columnNameSize
  nodup : (definitions.map fun d => lowercase d.name).Nodup

/-- A statement that the parser returns, which does not run out of pages half way, and which creates
no table whose column names are too long or alike. -/
def CreatesApart (s : Pager) (tree : AstNode) : Prop :=
  tree.CanFinish s ∧ tree.Scanned ∧ ∀ name definitions, tree = .createTable name definitions →
    NamesApart definitions

variable {s s' : Pager} {ts ts' : List TableInfo} {name : List UInt8} {n : ℕ} {p q : Page}
  {tree : AstNode} {ok : Pager → AstNode → Prop} {definitions : List ColumnDefinition}
  {hv : ValidDefinitions definitions} {t : PageTreeAny}

/-! ## Entries -/

theorem SameEntry.columnName (h : SameEntry n p q) {i : ℕ} (hi : i < maxTableColumns) :
    MiniDB.columnName q n i = MiniDB.columnName p n i := by
  refine Mem.read_congr ?_
  intro k hk
  rw [maxTableColumns] at hi
  refine h _ ?_ ?_ <;> simp only [columnSlot_eq, catalogNodeTable_eq] <;> omega

theorem SameEntry.distinctNames (h : SameEntry n p q) (hd : DistinctNames p n)
    (hcount : catalogNodeColumnCount p n ≤ maxTableColumns) : DistinctNames q n := by
  obtain ⟨names, hlen, hfrom, hnd⟩ := hd
  refine ⟨names, hlen.trans h.columnCount.symm, ?_, hnd⟩
  intro j hj
  rw [h.columnName (by omega)]
  exact hfrom j hj

/-- The names that were just stored. -/
theorem Created.namesFrom (h : Created s name definitions hv s')
    (hterm : ∀ d ∈ definitions, 0 ∉ d.name)
    (hshort : ∀ d ∈ definitions, d.name.length < columnNameSize) :
    NamesFrom (s'.page 0) (catalogNodeNumTables (s.page 0)) 0
      (definitions.map ColumnDefinition.name) := by
  intro j hj
  rw [List.length_map] at hj
  rw [Nat.zero_add, List.getElem_map]
  exact (h.columnNames_iff hterm).mpr hshort j hj

/-- **A table whose names are apart** has distinct names. -/
theorem Created.distinctNames (h : Created s name definitions hv s')
    (hterm : ∀ d ∈ definitions, 0 ∉ d.name) (hnames : NamesApart definitions) :
    DistinctNames (s'.page 0) (catalogNodeNumTables (s.page 0)) := by
  refine ⟨definitions.map ColumnDefinition.name, ?_, h.namesFrom hterm hnames.short, ?_⟩
  · rw [List.length_map, h.columnCount]
  · rw [List.map_map]
    exact hnames.nodup

/-! ## Runs -/

/-- A table has eight columns at most, and its primary key is one of them. -/
theorem Database.columns (h : Database s ts) (hn : n < catalogNodeNumTables (s.page 0)) :
    catalogNodeColumnCount (s.page 0) n ≤ maxTableColumns ∧
      catalogNodePrimaryKeyColumn (s.page 0) n < catalogNodeColumnCount (s.page 0) n := by
  rw [h.count] at hn
  have hdesc := h.describes n _ (List.getElem?_eq_getElem hn)
  rw [hdesc.columnCount, hdesc.primaryKey]
  exact ⟨Schema.bounded _, Schema.primaryKey_lt _⟩

/-- A statement keeps the entries that are in the catalog, and adds one at most. -/
theorem Change.entries (h : Change s ts s' tree ts') (hdb : Database s ts) :
    (∀ n < ts.length, SameEntry n (s.page 0) (s'.page 0)) ∧
      (catalogNodeNumTables (s'.page 0) = catalogNodeNumTables (s.page 0) ∨
        ∃ name definitions hv, tree = .createTable name definitions ∧
          Created s name definitions hv s') := by
  have hkept : s'.page 0 = s.page 0 → (∀ n < ts.length, SameEntry n (s.page 0) (s'.page 0)) ∧
      (catalogNodeNumTables (s'.page 0) = catalogNodeNumTables (s.page 0) ∨
        ∃ name definitions hv, tree = .createTable name definitions ∧
          Created s name definitions hv s') := by
    intro hsame
    rw [hsame]
    exact ⟨fun n _ k _ _ => rfl, Or.inl rfl⟩
  cases h with
  | same hev => exact hkept (hev.page 0 (not_le.mpr hdb.pos))
  | refused _ _ _ hbytes =>
    exact ⟨fun n hn => SameEntry.of_lt hbytes hn, Or.inl (numTables_congr hbytes)⟩
  | created hv hc =>
    refine ⟨fun n hn k hlow hk => hc.entries k ?_ ?_, Or.inr ⟨_, _, hv, rfl, hc⟩⟩
    · simp only [catalogNodeTable_eq, catalogEntriesOffset] at *
      omega
    · rw [hdb.count]
      simp only [catalogNodeTable_eq] at *
      omega
  | inserted hx _ _ _ _ _ _ hev => exact hkept (hdb.catalog hx hev)
  | updated hx _ _ _ hev => exact hkept (hdb.catalog hx hev)
  | deleted hx _ hev => exact hkept (hdb.catalog hx hev)

/-- **The invariant rule for catalog entries**: what an entry says in its own bytes stays as it was
when the table was created. -/
theorem Reachable.entries {Q : Page → ℕ → Prop} (h : Reachable ok s)
    (hfinish : ∀ s tree, ok s tree → tree.CanFinish s)
    (hcongr : ∀ p q n, SameEntry n p q → catalogNodeColumnCount p n ≤ maxTableColumns →
      catalogNodePrimaryKeyColumn p n < catalogNodeColumnCount p n → Q p n → Q q n)
    (hcreated : ∀ s name definitions hv s', ok s (.createTable name definitions) →
      Created s name definitions hv s' → Q (s'.page 0) (catalogNodeNumTables (s.page 0))) :
    ∃ ts, Database s ts ∧ ∀ n < catalogNodeNumTables (s.page 0), Q (s.page 0) n := by
  refine h.invariant (P := fun s _ => ∀ n < catalogNodeNumTables (s.page 0), Q (s.page 0) n)
    hfinish ?_ ?_
  · intro s hopen
    obtain ⟨s₁, hopen₁, hdb⟩ := database_empty
    obtain rfl := Option.some_inj.mp (hopen₁.symm.trans hopen)
    rw [hdb.count]
    exact fun n hn => absurd hn (Nat.not_lt_zero n)
  · intro s tree s' ts ts' hdb _ hall hok _ hchange
    obtain ⟨hsame, hadded⟩ := hchange.entries hdb
    have hold : ∀ n < catalogNodeNumTables (s.page 0), Q (s'.page 0) n := by
      intro n hn
      have hcols := hdb.columns hn
      exact hcongr _ _ n (hsame n (by rwa [hdb.count] at hn)) hcols.1 hcols.2 (hall n hn)
    rcases hadded with hcount | ⟨name, definitions, hv, rfl, hc⟩
    · rwa [hcount]
    · intro n hn
      rw [hc.count] at hn
      rcases Nat.lt_succ_iff_lt_or_eq.mp hn with hn | rfl
      · exact hold n hn
      · exact hcreated s name definitions hv s' hok hc

/-- **In the runs that create only tables whose names are apart** the names of every table are
distinct. -/
theorem Reachable.distinctNames (h : Reachable CreatesApart s) :
    ∃ ts, Database s ts ∧ ∀ n < catalogNodeNumTables (s.page 0), DistinctNames (s.page 0) n := by
  refine h.entries (fun s tree hok => hok.1)
    (fun p q n hsame hcount _ hd => hsame.distinctNames hd hcount) ?_
  rintro s name definitions hv s' ⟨-, hscan, hapart⟩ hc
  exact hc.distinctNames (fun d hd => (hscan.2 d hd).zero_notMem) (hapart _ _ rfl)

/-- **All name resolvers agree** on the tables whose column names are distinct and can be read back,
and on no others; so they agree on every table of a run that creates only tables whose column names
have fewer than 32 bytes and differ. -/
theorem reachable_resolversAgree (h : Reachable Finishes s)
    (hn : n < catalogNodeNumTables (s.page 0)) :
    (ResolversAgree s n ↔ DistinctNames (s.page 0) n) ∧
      (Reachable CreatesApart s → ResolversAgree s n) := by
  obtain ⟨ts, hdb⟩ := h.database
  have hiff := resolversAgree_iff (hdb.columns hn).2
  refine ⟨hiff, fun hapart => hiff.mpr ?_⟩
  obtain ⟨-, -, hall⟩ := hapart.distinctNames
  exact hall n hn

/-! ## A single table -/

/-- The database of one table. -/
theorem exists_created (definitions : List ColumnDefinition) (hname : Storable name)
    (hv : ValidDefinitions definitions)
    (hnames : ∀ d ∈ definitions, d.name.length ≤ columnNameSize) :
    ∃ s, OneTable s name definitions hv ⟨0, .leaf 1 []⟩ ∧ s.numPages = 2 ∧
      ∀ ok : Pager → AstNode → Prop, (∀ s, ok s (.createTable name definitions)) →
        Reachable ok s := by
  obtain ⟨s₀, s, hopen, hrun, h, hnum, -⟩ := execute_create hname hv hnames
  refine ⟨s, h, hnum, fun ok hok => ⟨s₀, hopen, ?_⟩⟩
  exact (Runs.Reached.refl s₀).tail (hok s₀) ⟨hv, _, hrun⟩

theorem OneTable.count (h : OneTable s name definitions hv t) :
    catalogNodeNumTables (s.page 0) = 1 := h.database.count

theorem OneTable.columnCount (h : OneTable s name definitions hv t) :
    catalogNodeColumnCount (s.page 0) 0 = definitions.length := by
  rw [h.holds.describes.columnCount, schemaOf, List.length_map]

/-- The names of the columns of the table. -/
theorem OneTable.namesFrom (h : OneTable s name definitions hv t)
    (hnames : ∀ d ∈ definitions, Storable d.name) :
    NamesFrom (s.page 0) 0 0 (definitions.map ColumnDefinition.name) := by
  intro j hj
  rw [List.length_map] at hj
  rw [Nat.zero_add, List.getElem_map, h.columns j hj]
  exact decodeName_nameField (hnames _ (List.getElem_mem hj)).1 (hnames _ (List.getElem_mem hj)).2

/-- A column of the table. -/
theorem OneTable.findColumn (h : OneTable s name definitions hv t)
    (hnames : ∀ d ∈ definitions, Storable d.name) (column : List UInt8) :
    catalogNodeFindColumn (s.page 0) 0 column =
      .ok (resolveName (definitions.map ColumnDefinition.name) column) := by
  refine findColumn_eq (h.namesFrom hnames) ?_ column
  rw [h.columnCount, List.length_map]

/-- The first column of texts of the notes. -/
theorem OneTable.findColumn_text (h : OneTable s notesName notes validNotes t) :
    catalogNodeFindColumn (s.page 0) 0 [97] = .ok (some 1) := h.findColumn (by decide) [97]

/-- The primary key column of the notes. -/
theorem OneTable.findColumn_id (h : OneTable s notesName notes validNotes t) :
    catalogNodeFindColumn (s.page 0) 0 (ascii "id") = .ok (some 0) :=
  h.findColumn (by decide) (ascii "id")

theorem textsFit_text {text : List UInt8} (h : text.length ≤ valueTextMaxLen) :
    TextsFit [.literalString text] := by
  intro text' hmem
  cases List.mem_singleton.mp hmem
  exact h

theorem areScanned_text {text : List UInt8} (h : 0 ∉ text) :
    AreScanned [.literalString text] := by
  intro text' hmem
  cases List.mem_singleton.mp hmem
  exact h

/-- The assignment `a = text` passes the check. -/
theorem OneTable.resolveAssignments_text (h : OneTable s notesName notes validNotes t)
    (text : List UInt8) :
    resolveAssignments (s.page 0) 0 ([Expr.column [97]].zip [.literalString text]) =
      .ok (.ok [(1, .literalString text)]) := by
  have htype : storedType (s.page 0) 0 1 = ColumnType.columnText.toByte :=
    h.holds.describes.storedType (i := 1) (by decide)
  show (catalogNodeFindColumn (s.page 0) 0 [97] >>= _) = _
  rw [h.findColumn_text]
  show (if typeMatches (storedType (s.page 0) 0 1) (.literalString text) = true then _ else _) = _
  rw [htype]
  rfl

/-- The columns of the notes. -/
theorem reachable_resolversAgree_notes : ∃ s, Reachable Finishes s ∧ ResolversAgree s 0 := by
  obtain ⟨s, h, -, hreach⟩ := exists_created notes storable_notesName validNotes (by decide)
  have hapart : NamesApart notes := ⟨by decide, by decide⟩
  have hscan : (AstNode.createTable notesName notes).Scanned := by
    refine ⟨⟨by decide, by decide⟩, ?_⟩
    intro d hd
    exact ⟨by revert d; decide, by revert d; decide⟩
  refine ⟨s, hreach _ fun s => trivial, (reachable_resolversAgree (hreach _ fun s => trivial)
    (by rw [h.count]; decide)).2 (hreach _ fun s => ⟨trivial, hscan, ?_⟩)⟩
  rintro _ _ ⟨⟩
  exact hapart

/-- Two columns of one name, the second of which is the primary key. -/
def doubled : List ColumnDefinition :=
  [⟨ascii "id", .columnText, false⟩, ⟨ascii "ID", .columnInteger, true⟩]

/-- The name is resolved to the first column, and passes for that of the primary key. -/
theorem not_resolversAgree_doubled : ∃ s, Reachable Completes s ∧
    0 < catalogNodeNumTables (s.page 0) ∧
      catalogNodeFindColumn (s.page 0) 0 (ascii "id") = .ok (some 0) ∧
      catalogNodePrimaryKeyColumn (s.page 0) 0 = 1 ∧
      isPrimaryKey (s.page 0) 0 (ascii "id") = .ok true ∧ ¬ ResolversAgree s 0 := by
  have hv : ValidDefinitions doubled := ⟨by decide, _, rfl, rfl⟩
  obtain ⟨s, h, -, hreach⟩ := exists_created doubled storable_notesName hv (by decide)
  have hfind := h.findColumn (by decide)
  have hfrom := h.namesFrom (by decide)
  have hpk : catalogNodePrimaryKeyColumn (s.page 0) 0 = 1 := h.holds.describes.primaryKey
  have hscan : (AstNode.createTable notesName doubled).Scanned := by
    refine ⟨⟨by decide, by decide⟩, ?_⟩
    intro d hd
    exact ⟨by revert d; decide, by revert d; decide⟩
  refine ⟨s, hreach _ fun s => ⟨trivial, hscan, ?_⟩, by rw [h.count]; decide, hfind _, hpk, ?_, ?_⟩
  · rintro _ _ ⟨⟩
    decide
  · rw [isPrimaryKey_eq hfrom (by rw [hpk]; decide)]
    simp only [hpk]
    rfl
  · intro hagree
    obtain ⟨column, hname, hown⟩ := hagree.own 1 (by rw [h.columnCount]; decide)
    have hsecond := hfrom 1 (by decide)
    rw [Nat.zero_add, hname] at hsecond
    cases hsecond
    rw [hfind] at hown
    cases hown

end MiniDB
