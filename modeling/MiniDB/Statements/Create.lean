import MiniDB.Statements.Schema

/-!
# `CREATE TABLE`

* `Describes.congr`: the entry of a table is what its 302 bytes say.
* `ValidDefinitions`, `schemaOf`: what the parser lets through, and its schema.
* `writeColumns_eq`, `writeColumns_stops`: the loop over the columns.
* `RootTaken`: what `create_table` has done before it comes to the columns; `RootTaken.created`:
  what is there when it has got through them.
* `createTable_spec`: the outcome; `createTable_created`, `createTable_refused`: when there is room.
-/

namespace MiniDB

open BPlusTree Pager

/-! ## Entries -/

theorem catalogNodeTable_eq (n : ℕ) : catalogNodeTable n = 302 * n + 4 := by
  unfold catalogNodeTable catalogEntriesOffset tableEntrySize
  omega

theorem columnSlot_eq (n i : ℕ) : columnSlot n i = 302 * n + 33 * i + 42 := by
  unfold columnSlot tableColumnsOffset columnSize
  rw [catalogNodeTable_eq]
  omega

variable {p q : Page} {n : ℕ} {σ : Schema}

/-- Two pages have the same entry `n`. -/
def SameEntry (n : ℕ) (p q : Page) : Prop :=
  ∀ i, catalogNodeTable n ≤ i → i < catalogNodeTable (n + 1) → q i = p i

/-- The number of tables lies in front of the entries. -/
theorem numTables_congr {k : ℕ} (h : ∀ i < catalogNodeTable k, q i = p i) :
    catalogNodeNumTables q = catalogNodeNumTables p := by
  refine Mem.readNat_congr (Mem.read_congr fun i hi => h _ ?_)
  rw [catalogNodeTable_eq, tableCountOffset]
  omega

/-- Pages that agree on the first entries have the same ones. -/
theorem SameEntry.of_lt {k : ℕ} (h : ∀ i < catalogNodeTable k, q i = p i) (hn : n < k) :
    SameEntry n p q := by
  intro i _ hi
  refine h i ?_
  simp only [catalogNodeTable_eq] at *
  omega

theorem SameEntry.rootPage (h : SameEntry n p q) :
    catalogNodeRootPage q n = catalogNodeRootPage p n := by
  refine Mem.readNat_congr (Mem.read_congr ?_)
  intro i hi
  simp only [rootPageNumberOffset, catalogNodeTable_eq] at *
  exact h _ (by rw [catalogNodeTable_eq]; omega) (by rw [catalogNodeTable_eq]; omega)

theorem SameEntry.columnCount (h : SameEntry n p q) :
    catalogNodeColumnCount q n = catalogNodeColumnCount p n := by
  refine congrArg UInt8.toNat (h _ ?_ ?_) <;>
    simp only [columnCountOffset, catalogNodeTable_eq] <;> omega

theorem SameEntry.primaryKey (h : SameEntry n p q) :
    catalogNodePrimaryKeyColumn q n = catalogNodePrimaryKeyColumn p n := by
  refine congrArg UInt8.toNat (h _ ?_ ?_) <;>
    simp only [primaryKeyColumnOffset, catalogNodeTable_eq] <;> omega

theorem SameEntry.storedType (h : SameEntry n p q) {i : ℕ} (hi : i < maxTableColumns) :
    storedType q n i = storedType p n i := by
  unfold maxTableColumns at hi
  refine h _ ?_ ?_ <;> simp only [columnNameSize, columnSlot_eq, catalogNodeTable_eq] <;> omega

/-- **What an entry says is in its own bytes.** -/
theorem Describes.congr (h : Describes p n σ) (hq : SameEntry n p q) : Describes q n σ where
  types := by
    rw [← h.types, storedTypes, storedTypes, hq.columnCount]
    refine List.map_congr_left ?_
    intro i hi
    have hlt := List.mem_range.mp hi
    rw [h.columnCount] at hlt
    exact hq.storedType (lt_of_lt_of_le hlt σ.bounded)
  primaryKey := hq.primaryKey.trans h.primaryKey

/-! ## Names -/

/-- A name in a field that was cleared before. -/
def nameField (name : List UInt8) : List UInt8 :=
  name ++ List.replicate (columnNameSize - name.length) 0

theorem length_nameField {name : List UInt8} (h : name.length ≤ columnNameSize) :
    (nameField name).length = columnNameSize := by
  rw [nameField, List.length_append, List.length_replicate]
  omega

/-- A name that is copied into a field leaves the rest of the field alone. -/
theorem read_name (p : Page) (a : ℕ) {name : List UInt8} (h : name.length ≤ columnNameSize) :
    (p.write a name).read a columnNameSize =
      name ++ (p.read a columnNameSize).drop name.length := by
  have hsplit : columnNameSize = name.length + (columnNameSize - name.length) := by omega
  rw [Mem.drop_read h]
  conv_lhs => rw [hsplit]
  rw [Mem.read_append, Mem.read_write_self, Mem.read_write_of_disjoint (Or.inr le_rfl)]

/-- The field of a name of any length. -/
theorem read_nameTake (p : Page) (a : ℕ) (name : List UInt8) :
    (p.write a name).read a columnNameSize =
      (name ++ (p.read a columnNameSize).drop name.length).take columnNameSize := by
  rcases le_or_gt name.length columnNameSize with h | h
  · rw [read_name p a h, List.take_of_length_le]
    rw [List.length_append, List.length_drop, Mem.length_read]
    omega
  · have hlen : (name.take columnNameSize).length = columnNameSize := by
      rw [List.length_take]
      omega
    rw [List.take_append_of_le_length h.le, Mem.read_eq_iff hlen]
    intro i hi
    rw [Mem.write_apply_of_mem (by omega), List.getElem_take]

theorem read_nameField (p : Page) (a : ℕ) {name : List UInt8} (h : name.length ≤ columnNameSize) :
    ((p.zero a columnNameSize).write a name).read a columnNameSize = nameField name := by
  have hzero := Mem.read_write_self p a (List.replicate columnNameSize 0)
  rw [List.length_replicate] at hzero
  rw [read_name _ _ h, Mem.zero, hzero, List.drop_replicate]
  rfl

/-- A name is found in its own field, when the field has an end. -/
theorem nameEquals_nameField {name : List UInt8} (h : name.length < columnNameSize)
    (hterm : 0 ∉ name) (other : List UInt8) :
    nameEquals other (nameField name) = .ok (other.length == name.length &&
      other.map tolower == name.map tolower) := by
  have hstr : cstrlen (nameField name) = some name.length := by
    obtain ⟨k, hk⟩ : ∃ k, columnNameSize - name.length = k + 1 :=
      ⟨columnNameSize - name.length - 1, by omega⟩
    rw [cstrlen_eq_some_iff, nameField, hk, List.replicate_succ]
    refine ⟨by simp, ?_⟩
    rw [List.idxOf_append_of_notMem hterm, List.idxOf_cons_self, Nat.add_zero]
  unfold nameEquals strlen
  rw [hstr, nameField]
  show Except.ok _ = _
  rw [List.take_left]

/-! ## Column definitions -/

/-- What the parser promises about the column definitions of a `CREATE TABLE`: there are at most
eight, and just one is a primary key, which is of type INTEGER. -/
structure ValidDefinitions (definitions : List ColumnDefinition) : Prop where
  bounded : definitions.length ≤ maxTableColumns
  primary : ∃ d, definitions.filter ColumnDefinition.isPrimary = [d] ∧
    d.columnType = .columnInteger

/-- The position of the primary key. -/
def primaryIndex (definitions : List ColumnDefinition) : ℕ :=
  definitions.findIdx ColumnDefinition.isPrimary

/-- The primary key among valid definitions. -/
theorem ValidDefinitions.split {definitions : List ColumnDefinition}
    (h : ValidDefinitions definitions) :
    ∃ l₁ d l₂, definitions = l₁ ++ d :: l₂ ∧ (∀ c ∈ l₁, c.isPrimary = false) ∧
      d.isPrimary = true ∧ (∀ c ∈ l₂, c.isPrimary = false) ∧ d.columnType = .columnInteger ∧
      primaryIndex definitions = l₁.length := by
  obtain ⟨d, hfilter, htype⟩ := h.primary
  obtain ⟨l₁, l₂, rfl, hl₁, hd, hl₂⟩ := List.filter_eq_cons_iff.mp hfilter
  have hnone : ∀ c ∈ l₁, c.isPrimary = false := by
    intro c hc
    exact eq_false_of_ne_true (hl₁ c hc)
  refine ⟨l₁, d, l₂, rfl, hnone, hd, ?_, htype, ?_⟩
  · intro c hc
    exact eq_false_of_ne_true (List.filter_eq_nil_iff.mp hl₂ c hc)
  · rw [primaryIndex, List.findIdx_append, List.findIdx_eq_length_of_false hnone,
      if_neg (lt_irrefl _), List.findIdx_cons, hd]
    exact Nat.zero_add _

/-- The schema of a table. -/
def schemaOf (definitions : List ColumnDefinition) (h : ValidDefinitions definitions) : Schema where
  types := definitions.map ColumnDefinition.columnType
  primaryKey := primaryIndex definitions
  bounded := by
    rw [List.length_map]
    exact h.bounded
  integer := by
    obtain ⟨l₁, d, l₂, rfl, -, -, -, htype, hindex⟩ := h.split
    rw [hindex, List.map_append, List.map_cons, List.getElem?_append_right (by simp)]
    simp [htype]

/-! ## The loop over the columns -/

/-- The offset of the primary key byte. -/
def primaryKeyByte (n : ℕ) : ℕ := catalogNodeTable n + primaryKeyColumnOffset

theorem primaryKeyByte_eq (n : ℕ) : primaryKeyByte n = 302 * n + 41 := by
  unfold primaryKeyByte primaryKeyColumnOffset
  rw [catalogNodeTable_eq]

/-- One round writes the slot of the column, and the primary key byte. -/
theorem writeColumn_frame {i k : ℕ} {d : ColumnDefinition}
    (hname : d.name.length ≤ columnNameSize) (hk : k < columnSlot n i ∨ columnSlot n (i + 1) ≤ k)
    (hpk : k ≠ primaryKeyByte n ∨ d.isPrimary = false) : writeColumn p n i d k = p k := by
  have hslot : ((((p.zero (columnSlot n i) columnNameSize).write (columnSlot n i) d.name).write
      (columnSlot n i + columnNameSize) [d.columnType.toByte])) k = p k := by
    simp only [columnSlot_eq, columnNameSize] at *
    rw [Mem.write_apply_of_not_mem (by rw [List.length_singleton]; omega),
      Mem.write_apply_of_not_mem (by omega), Mem.zero,
      Mem.write_apply_of_not_mem (by rw [List.length_replicate]; omega)]
  unfold writeColumn
  split
  · next hprimary =>
    have hne : k ≠ primaryKeyByte n := hpk.resolve_right (by rw [hprimary]; decide)
    rw [← hslot]
    unfold primaryKeyByte at hne
    exact Mem.write_apply_of_not_mem (by rw [List.length_singleton]; omega)
  · exact hslot

/-- What the slot of a column holds. -/
def slotBytes (d : ColumnDefinition) : List UInt8 := nameField d.name ++ [d.columnType.toByte]

/-- The slot that a round writes. -/
theorem writeColumn_slot (p : Page) (n i : ℕ) {d : ColumnDefinition}
    (hname : d.name.length ≤ columnNameSize) :
    (writeColumn p n i d).read (columnSlot n i) columnSize = slotBytes d := by
  have hlen := length_nameField hname
  have hslot : (((p.zero (columnSlot n i) columnNameSize).write (columnSlot n i) d.name).write
      (columnSlot n i + columnNameSize) [d.columnType.toByte]).read (columnSlot n i) columnSize =
        slotBytes d := by
    show Mem.read _ _ (columnNameSize + 1) = _
    rw [Mem.read_append, Mem.read_write_of_disjoint (Or.inl le_rfl)]
    have hfield := read_nameField p (columnSlot n i) hname
    have htype := Mem.read_write_self
      ((p.zero (columnSlot n i) columnNameSize).write (columnSlot n i) d.name)
      (columnSlot n i + columnNameSize) [d.columnType.toByte]
    exact congrArg₂ (· ++ ·) hfield htype
  unfold writeColumn
  split
  · rw [← hslot]
    refine Mem.read_write_of_disjoint (Or.inr ?_)
    have hpk := primaryKeyByte_eq n
    unfold primaryKeyByte at hpk
    rw [List.length_singleton, columnSlot_eq]
    omega
  · exact hslot

/-- The primary key byte that a round writes. -/
theorem writeColumn_primary {i : ℕ} {d : ColumnDefinition} (h : d.isPrimary = true) :
    writeColumn p n i d (primaryKeyByte n) = UInt8.ofNat i := by
  unfold writeColumn
  rw [if_pos h]
  exact Mem.write_apply_of_mem (l := [UInt8.ofNat i]) (i := 0) Nat.one_pos

/-- **The loop when every name fits.** -/
theorem writeColumns_eq {definitions : List ColumnDefinition}
    (hnames : ∀ d ∈ definitions, d.name.length ≤ columnNameSize) (i : ℕ) (p : Page) :
    ∃ q, writeColumns n i definitions p = (true, q) ∧
      (∀ k, k < columnSlot n i ∨ columnSlot n (i + definitions.length) ≤ k →
        (k ≠ primaryKeyByte n ∨ ∀ d ∈ definitions, d.isPrimary = false) → q k = p k) ∧
      (∀ j (h : j < definitions.length),
        q.read (columnSlot n (i + j)) columnSize = slotBytes definitions[j]) ∧
      ∀ l₁ d l₂, definitions = l₁ ++ d :: l₂ → d.isPrimary = true →
        (∀ c ∈ l₂, c.isPrimary = false) → q (primaryKeyByte n) = UInt8.ofNat (i + l₁.length) := by
  induction definitions generalizing i p with
  | nil =>
    refine ⟨p, rfl, fun _ _ _ => rfl, fun j h => absurd h (Nat.not_lt_zero j), ?_⟩
    intro l₁ d l₂ heq
    exact absurd heq (by simp)
  | cons d ds ih =>
    have hd : d.name.length ≤ columnNameSize := hnames d List.mem_cons_self
    obtain ⟨q, hrun, hframe, hslots, hprimary⟩ :=
      ih (fun c hc => hnames c (List.mem_cons_of_mem _ hc)) (i + 1) (writeColumn p n i d)
    have hlen : i + (d :: ds).length = i + 1 + ds.length := by
      rw [List.length_cons]
      omega
    have hpk := primaryKeyByte_eq n
    refine ⟨q, ?_, ?_, ?_, ?_⟩
    · rw [writeColumns, if_neg (not_lt.mpr hd)]
      exact hrun
    · intro k hk hnot
      rw [hlen] at hk
      have hk' : k < columnSlot n i ∨ columnSlot n (i + 1) ≤ k := by
        simp only [columnSlot_eq] at *
        omega
      have hk'' : k < columnSlot n (i + 1) ∨ columnSlot n (i + 1 + ds.length) ≤ k := by
        simp only [columnSlot_eq] at *
        omega
      rw [hframe k hk'' (hnot.imp_right fun h c hc => h c (List.mem_cons_of_mem _ hc)),
        writeColumn_frame hd hk' (hnot.imp_right fun h => h d List.mem_cons_self)]
    · intro j hj
      cases j with
      | zero =>
        -- the later rounds leave the slot of this column alone
        have hsame : q.read (columnSlot n i) columnSize =
            (writeColumn p n i d).read (columnSlot n i) columnSize := by
          refine Mem.read_congr ?_
          intro k hk
          simp only [columnSize] at hk
          apply hframe <;> simp only [columnSlot_eq] <;> omega
        rw [Nat.add_zero, hsame]
        exact writeColumn_slot p n i hd
      | succ j =>
        have hidx : i + (j + 1) = i + 1 + j := by omega
        rw [hidx, hslots j (Nat.lt_of_succ_lt_succ hj), List.getElem_cons_succ]
    · intro l₁ c l₂ heq hc hl₂
      cases l₁ with
      | nil =>
        obtain ⟨rfl, rfl⟩ := List.cons.inj heq
        have hslot : primaryKeyByte n < columnSlot n (i + 1) := by
          simp only [columnSlot_eq]
          omega
        rw [hframe _ (Or.inl hslot) (Or.inr hl₂)]
        exact writeColumn_primary hc
      | cons b l₁ =>
        obtain ⟨rfl, rfl⟩ := List.cons.inj heq
        rw [hprimary l₁ c l₂ rfl hc hl₂, List.length_cons]
        congr 1
        omega

/-- Whether or not it gets through, the loop writes nothing in front of the columns but the primary
key byte. -/
theorem writeColumns_head (definitions : List ColumnDefinition) (i : ℕ) (p : Page) {k : ℕ}
    (hk : k < columnSlot n 0) (hpk : k ≠ primaryKeyByte n) :
    (writeColumns n i definitions p).2 k = p k := by
  induction definitions generalizing i p with
  | nil => rfl
  | cons d ds ih =>
    rw [writeColumns]
    split
    · rfl
    · next hname =>
      rw [ih, writeColumn_frame (not_lt.mp hname)
        (Or.inl (by simp only [columnSlot_eq] at *; omega)) (Or.inl hpk)]

/-- It writes nothing in front of the entry. -/
theorem writeColumns_before (definitions : List ColumnDefinition) (i : ℕ) (p : Page) {k : ℕ}
    (hk : k < catalogNodeTable n) : (writeColumns n i definitions p).2 k = p k := by
  have hpk := primaryKeyByte_eq n
  rw [catalogNodeTable_eq] at hk
  exact writeColumns_head definitions i p (by rw [columnSlot_eq]; omega) (by omega)

/-- The loop stops at a name that is too long. -/
theorem writeColumns_stops {definitions : List ColumnDefinition} {d : ColumnDefinition}
    (hd : d ∈ definitions) (hlong : columnNameSize < d.name.length) (i : ℕ) (p : Page) :
    (writeColumns n i definitions p).1 = false := by
  induction definitions generalizing i p with
  | nil => exact absurd hd List.not_mem_nil
  | cons c cs ih =>
    rw [writeColumns]
    split
    · rfl
    · next hname =>
      rcases List.mem_cons.mp hd with rfl | hd
      · exact absurd hlong hname
      · exact ih hd _ _

/-! ## The command -/

/-- A page that `leaf_node_init` has written is an empty tree. -/
theorem represents_leafNodeInit {s : Pager} {root : ℕ} {m : Page} (rowSize : ℕ)
    (hpage : s.page root = leafNodeInit m) (hlt : root < s.numPages) (hroot : root ≠ 0) :
    Represents s rowSize ⟨0, .leaf root []⟩ := by
  have hheader := header_leafNodeInit m
  rw [← hpage] at hheader
  refine ⟨⟨?_, ?_, ?_⟩, ?_, ⟨?_, ?_, ?_, ?_⟩, ?_⟩
  · show nodeType (s.page root) = nodeLeaf
    rw [nodeType_eq, hheader]
  · show leafCells rowSize (s.page root) = []
    rw [← List.length_eq_zero_iff, length_leafCells, numCells_eq, hheader]
  · show nextLeaf (s.page root) = 0
    rw [nextLeaf_eq, hheader]
  · show isRoot (s.page root) = 1
    rw [isRoot_eq, hheader]
  · exact ⟨List.Pairwise.nil, fun c hc => absurd hc List.not_mem_nil⟩
  · exact Nat.zero_le _
  · exact Multiset.nodup_singleton _
  · intro q hq
    rw [Multiset.mem_singleton.mp hq]
    exact hlt
  · exact fun hq => hroot (Multiset.mem_singleton.mp hq).symm

/-- What a `CREATE TABLE` that was carried out leaves behind. -/
structure Created (s : Pager) (name : List UInt8) (definitions : List ColumnDefinition)
    (hv : ValidDefinitions definitions) (s' : Pager) : Prop where
  room : catalogNodeNumTables (s.page 0) < maxCatalogTables
  numPages : s'.numPages = s.numPages + 1
  evolves : Evolves s s' {q | q = 0 ∨ q = s.numPages} ∅
  dirty : s'.pageDirty 0 = true ∧ s'.pageDirty s.numPages = true
  entries : ∀ k, catalogEntriesOffset ≤ k → k < catalogNodeTable (catalogNodeNumTables (s.page 0)) →
    s'.page 0 k = s.page 0 k
  count : catalogNodeNumTables (s'.page 0) = catalogNodeNumTables (s.page 0) + 1
  describes : Describes (s'.page 0) (catalogNodeNumTables (s.page 0)) (schemaOf definitions hv)
  rootPage : catalogNodeRootPage (s'.page 0) (catalogNodeNumTables (s.page 0)) = s.numPages
  root : ∃ p, s'.page s.numPages = leafNodeInit p
  behind : name.length ≤ tableEntrySize →
    ∀ k, catalogNodeTable (catalogNodeNumTables (s.page 0) + 1) ≤ k → s'.page 0 k = s.page 0 k
  name : catalogNodeName (s'.page 0) (catalogNodeNumTables (s.page 0)) =
    (name ++ (catalogNodeName (s.page 0) (catalogNodeNumTables (s.page 0))).drop name.length).take
      columnNameSize
  columns : ∀ i (h : i < definitions.length),
    columnName (s'.page 0) (catalogNodeNumTables (s.page 0)) i = nameField definitions[i].name

/-- How a `CREATE TABLE` can end. -/
inductive CreateOutcome (s : Pager) (name : List UInt8) (definitions : List ColumnDefinition)
    (hv : ValidDefinitions definitions) : Exec (Outcome × Pager) → Prop
  /-- the catalog is full -/
  | full : maxCatalogTables ≤ catalogNodeNumTables (s.page 0) →
      CreateOutcome s name definitions hv
        (.ok (⟨.commandSuccess, [ascii "MAX TABLES NUMBER REACHED! "]⟩, s))
  /-- there is no page for the root -/
  | noPage : tablesMaxPages ≤ s.numPages → CreateOutcome s name definitions hv (.error .nullPointer)
  /-- the name runs over the end of the catalog page -/
  | overrun : pageSize < catalogNodeTable (catalogNodeNumTables (s.page 0)) + tableNameOffset +
        name.length → CreateOutcome s name definitions hv (.error .outOfBounds)
  /-- a column name is too long: a page is lost, and the bytes behind the last entry are garbage -/
  | refused {s' : Pager} : (∃ d ∈ definitions, columnNameSize < d.name.length) →
      s'.numPages = s.numPages + 1 →
      Evolves s s' {q | q = 0 ∨ q = s.numPages} {q | q = 0 ∨ q = s.numPages} →
      (∀ k < catalogNodeTable (catalogNodeNumTables (s.page 0)), s'.page 0 k = s.page 0 k) →
      CreateOutcome s name definitions hv
        (.ok (⟨.commandSuccess, [ascii "Column name too long"]⟩, s'))
  /-- the table is there -/
  | created {s' : Pager} : (∀ d ∈ definitions, d.name.length ≤ columnNameSize) →
      Created s name definitions hv s' →
      CreateOutcome s name definitions hv (.ok (⟨.commandSuccess, []⟩, s'))

/-- The tree of a table that was just created is a leaf. -/
theorem Created.represents {s s' : Pager} {name : List UInt8} {definitions : List ColumnDefinition}
    {hv : ValidDefinitions definitions} (h : Created s name definitions hv s')
    (hpos : 0 < s.numPages) :
    Represents s' (schemaOf definitions hv).rowSize ⟨0, .leaf s.numPages []⟩ := by
  obtain ⟨p, hp⟩ := h.root
  have hnum := h.numPages
  exact represents_leafNodeInit _ hp (by omega) (by omega)

/-- The page that the columns are written into. -/
def entryHead (page : Page) (n root : ℕ) (name : List UInt8) (columns : ℕ) : Page :=
  ((page.write (catalogNodeTable n + tableNameOffset) name).writeNat
    (catalogNodeTable n + rootPageNumberOffset) 4 root).write
      (catalogNodeTable n + columnCountOffset) [UInt8.ofNat columns]

theorem entryHead_before (page : Page) (root : ℕ) (name : List UInt8) (columns : ℕ) {k : ℕ}
    (hk : k < catalogNodeTable n) : entryHead page n root name columns k = page k := by
  unfold entryHead
  rw [Mem.write_apply_of_not_mem (by omega), Mem.writeNat, Mem.write_apply_of_not_mem (by omega),
    Mem.write_apply_of_not_mem (by omega)]

/-- The name field of the entry, whether or not the loop over the columns gets through. -/
theorem catalogNodeName_entryHead {q page : Page} {root columns : ℕ} {name : List UInt8}
    (h : ∀ k < columnSlot n 0, k ≠ primaryKeyByte n → q k = entryHead page n root name columns k) :
    catalogNodeName q n =
      (name ++ (catalogNodeName page n).drop name.length).take columnNameSize := by
  have hread : catalogNodeName q n =
      (page.write (catalogNodeTable n + tableNameOffset) name).read
        (catalogNodeTable n + tableNameOffset) columnNameSize := by
    refine Mem.read_congr ?_
    intro i hi
    rw [h, entryHead, Mem.write_apply_of_not_mem, Mem.writeNat, Mem.write_apply_of_not_mem]
    all_goals
      simp only [columnSlot_eq, primaryKeyByte_eq, catalogNodeTable_eq, rootPageNumberOffset,
        columnCountOffset, tableNameOffset]
      omega
  rw [hread]
  exact read_nameTake page _ name

/-- A column name is too long: the loop stops, and nothing in front of the entry was written. -/
theorem exists_writeColumns_refused {definitions : List ColumnDefinition}
    (hlong : ∃ d ∈ definitions, columnNameSize < d.name.length) (page : Page) (name : List UInt8)
    (root : ℕ) :
    ∃ q, writeColumns n 0 definitions (entryHead page n root name definitions.length) = (false, q) ∧
      ∀ k < catalogNodeTable n, q k = page k := by
  obtain ⟨d, hd, hdlong⟩ := hlong
  refine ⟨_, Prod.ext (writeColumns_stops hd hdlong _ _) rfl, ?_⟩
  intro k hk
  have hbefore := writeColumns_before definitions 0
    (entryHead page n root name definitions.length) hk
  rw [entryHead_before _ _ _ _ hk] at hbefore
  exact hbefore

/-- The entry that the loop over the columns completes. -/
theorem describes_writeColumns {definitions : List ColumnDefinition}
    (hv : ValidDefinitions definitions)
    (hnames : ∀ d ∈ definitions, d.name.length ≤ columnNameSize) (page : Page) (name : List UInt8)
    (root : ℕ) (hroot : Fits root) :
    ∃ q, writeColumns n 0 definitions (entryHead page n root name definitions.length) = (true, q) ∧
      Describes q n (schemaOf definitions hv) ∧ catalogNodeRootPage q n = root ∧
      catalogNodeName q n =
        (name ++ (catalogNodeName page n).drop name.length).take columnNameSize ∧
      (name.length ≤ tableEntrySize → ∀ k, catalogNodeTable (n + 1) ≤ k → q k = page k) ∧
      ∀ i (h : i < definitions.length), columnName q n i = nameField definitions[i].name := by
  obtain ⟨q, hrun, hframe, hslots, hprimary⟩ :=
    writeColumns_eq hnames 0 (entryHead page n root name definitions.length) (n := n)
  have hbound := hv.bounded
  unfold maxTableColumns at hbound
  have hpk := primaryKeyByte_eq n
  have hbefore : ∀ k < columnSlot n 0, k ≠ primaryKeyByte n →
      q k = entryHead page n root name definitions.length k := fun k hk hne =>
    hframe k (Or.inl hk) (Or.inl hne)
  have hcount : catalogNodeColumnCount q n = definitions.length := by
    have hbyte : q (catalogNodeTable n + columnCountOffset) = UInt8.ofNat definitions.length := by
      rw [hbefore _ (by simp only [columnSlot_eq, catalogNodeTable_eq, columnCountOffset]; omega)
        (by rw [hpk, catalogNodeTable_eq, columnCountOffset]; omega)]
      exact Mem.write_apply_of_mem (l := [UInt8.ofNat definitions.length]) (i := 0) Nat.one_pos
    rw [catalogNodeColumnCount, hbyte]
    simp only [UInt8.toNat_ofNat']
    omega
  have hslot : ∀ i (h : i < definitions.length),
      q.read (columnSlot n i) columnNameSize = nameField definitions[i].name ∧
        storedType q n i = definitions[i].columnType.toByte := by
    intro i hi
    have hread := hslots i hi
    have hlen := length_nameField (hnames _ (List.getElem_mem hi))
    rw [Nat.zero_add] at hread
    have happ : q.read (columnSlot n i) columnNameSize ++
        q.read (columnSlot n i + columnNameSize) 1 = slotBytes definitions[i] := by
      rw [← hread]
      exact (Mem.read_append q _ columnNameSize 1).symm
    obtain ⟨hname, htype⟩ := List.append_inj happ (by rw [Mem.length_read, hlen])
    exact ⟨hname, List.head_eq_of_cons_eq htype⟩
  refine ⟨q, hrun, ⟨?_, ?_⟩, ?_, ?_, ?_, fun i hi => (hslot i hi).1⟩
  · rw [storedTypes, hcount]
    apply List.ext_getElem
    · simp [schemaOf]
    · intro j h1 h2
      have hj : j < definitions.length := by simpa using h1
      simpa [schemaOf] using (hslot j hj).2
  · obtain ⟨l₁, d, l₂, heq, -, hd, hl₂, -, hindex⟩ := hv.split
    have hbyte := hprimary l₁ d l₂ heq hd hl₂
    have hlen : l₁.length < definitions.length := by
      rw [heq]
      simp
    show (q (primaryKeyByte n)).toNat = primaryIndex definitions
    rw [hbyte, hindex]
    simp only [UInt8.toNat_ofNat']
    omega
  · have hread : q.read (catalogNodeTable n + rootPageNumberOffset) 4 =
        (entryHead page n root name definitions.length).read
          (catalogNodeTable n + rootPageNumberOffset) 4 := by
      refine Mem.read_congr ?_
      intro i hi
      apply hbefore <;> simp only [columnSlot_eq, catalogNodeTable_eq, rootPageNumberOffset,
        hpk] <;>
        omega
    rw [catalogNodeRootPage, Mem.readNat_congr hread, entryHead, Mem.readNat_congr
      (Mem.read_write_of_disjoint (Or.inl (by
        rw [columnCountOffset, rootPageNumberOffset])))]
    exact Mem.readNat_writeNat_self hroot
  · exact catalogNodeName_entryHead hbefore
  · intro hname k hk
    rw [tableEntrySize] at hname
    rw [catalogNodeTable_eq] at hk
    rw [hframe k (Or.inr (by rw [columnSlot_eq]; omega)) (Or.inl (by omega)), entryHead,
      Mem.write_apply_of_not_mem, Mem.writeNat, Mem.write_apply_of_not_mem,
      Mem.write_apply_of_not_mem]
    all_goals
      simp only [catalogNodeTable_eq, rootPageNumberOffset, columnCountOffset, tableNameOffset,
        List.length_singleton, length_toLE]
      omega

/-! ## The page of the root -/

/-- The page of the root was taken, and holds an empty leaf. -/
structure RootTaken (s s₁ : Pager) : Prop where
  numPages : s₁.numPages = s.numPages + 1
  evolves : Evolves s s₁ {q | q = 0 ∨ q = s.numPages} {q | q = 0 ∨ q = s.numPages}
  catalog : s₁.page 0 = s.page 0
  root : ∃ m, s₁.page s.numPages = leafNodeInit m

section Columns

variable {s s₁ : Pager} {definitions : List ColumnDefinition}

/-- The first steps of `create_table`. -/
theorem exists_rootTaken (hs : s.Sound) (hpos : 0 < s.numPages)
    (hroom : s.numPages < tablesMaxPages) :
    ∃ s₁, pagerGetPage { s with numPages := s.numPages + 1 } s.numPages = some s₁ ∧
      RootTaken s (s₁.setPage s.numPages (leafNodeInit (s₁.page s.numPages))) := by
  obtain ⟨s₀, hs₀⟩ : ∃ s₀, s₀ = { s with numPages := s.numPages + 1 } := ⟨_, rfl⟩
  have hpage₀ : s₀.page = s.page := by
    rw [hs₀]
    rfl
  have hnum₀ : s₀.numPages = s.numPages + 1 := by rw [hs₀]
  have hsound₀ : s₀.Sound := by
    subst hs₀
    exact ⟨hs.length, fun q hq => (hs.cached q hq).trans (Nat.lt_succ_self _), hroom⟩
  have hev₀ : ∀ S M, Evolves s s₀ S M := fun S M => by
    refine SameView.evolves ⟨hpage₀, ?_, ?_, ?_⟩ (by omega) hsound₀ <;> rw [hs₀]
  obtain ⟨s₁, hget, hf⟩ := pagerGetPage_of_lt hsound₀ (n := s.numPages) (by omega)
  have hnum₁ : s₁.numPages = s.numPages + 1 := hf.numPages.trans hnum₀
  refine ⟨s₁, hs₀ ▸ hget, hnum₁, ?_, ?_, s₁.page s.numPages, ?_⟩
  · exact ((hev₀ _ _).fetched hf).setPage (by omega) (Or.inr rfl) (Or.inr rfl)
  · rw [page_setPage, Function.update_of_ne (by omega), hf.page, hpage₀]
  · rw [page_setPage, Function.update_self]

/-- Whatever is written into the catalog page afterwards. -/
theorem RootTaken.write (h : RootTaken s s₁) (p : Page) :
    Evolves s (s₁.setPage 0 p) {q | q = 0 ∨ q = s.numPages} {q | q = 0 ∨ q = s.numPages} := by
  have hnum := h.numPages
  exact h.evolves.setPage (by omega) (Or.inl rfl) (Or.inl rfl)

/-- **The loop gets through**: the entry is complete, and is counted. -/
theorem RootTaken.created (h : RootTaken s s₁) (hs : s.Sound) (hpos : 0 < s.numPages)
    (name : List UInt8) (hv : ValidDefinitions definitions)
    (hnames : ∀ d ∈ definitions, d.name.length ≤ columnNameSize)
    (hroom : catalogNodeNumTables (s.page 0) < maxCatalogTables) :
    ∃ q, writeColumns (catalogNodeNumTables (s.page 0)) 0 definitions
        (entryHead (s.page 0) (catalogNodeNumTables (s.page 0)) s.numPages name
          definitions.length) = (true, q) ∧
      Created s name definitions hv (pagerMarkDirty (pagerMarkDirty (s₁.setPage 0
        (q.writeNat tableCountOffset 4 (catalogNodeNumTables (s.page 0) + 1))) 0) s.numPages) := by
  obtain ⟨n, hn⟩ : ∃ n, n = catalogNodeNumTables (s.page 0) := ⟨_, rfl⟩
  rw [← hn] at hroom ⊢
  obtain ⟨q, hrun, hdesc, hrootPage, hname, hbehind', hcolumns⟩ :=
    describes_writeColumns (n := n) hv hnames (s.page 0) name s.numPages
      (fits_of_le (m := tablesMaxPages) hs.bounded)
  refine ⟨q, hrun, ?_⟩
  obtain ⟨p, hp⟩ : ∃ p, p = q.writeNat tableCountOffset 4 (n + 1) := ⟨_, rfl⟩
  -- the count is in front of all entries
  have hbehind : ∀ k, catalogEntriesOffset ≤ k → p k = q k := by
    intro k hk
    rw [hp]
    refine Mem.write_apply_of_not_mem (Or.inr ?_)
    rw [length_toLE]
    exact hk
  have hsame : SameEntry n q p := fun k hk _ => hbehind k (Nat.le_trans (Nat.le_add_right ..) hk)
  have hentry : ∀ a, catalogEntriesOffset ≤ a → p.read a columnNameSize =
      q.read a columnNameSize := fun a ha =>
    Mem.read_congr fun i _ => hbehind _ (ha.trans (Nat.le_add_right a i))
  have hcount : catalogNodeNumTables p = n + 1 := by
    rw [hp]
    refine Mem.readNat_writeNat_self ?_
    unfold maxCatalogTables at hroom
    omega
  rw [← hp]
  obtain ⟨s', hs'⟩ : ∃ s', s' = pagerMarkDirty (pagerMarkDirty (s₁.setPage 0 p) 0) s.numPages :=
    ⟨_, rfl⟩
  have hzero' : s'.page 0 = p := by
    rw [hs', page_pagerMarkDirty, page_pagerMarkDirty, page_setPage, Function.update_self]
  have hroot' : s'.page s.numPages = s₁.page s.numPages := by
    rw [hs', page_pagerMarkDirty, page_pagerMarkDirty, page_setPage,
      Function.update_of_ne (by omega)]
  have hnum' : s'.numPages = s.numPages + 1 := by
    rw [hs', numPages_pagerMarkDirty, numPages_pagerMarkDirty, numPages_setPage, h.numPages]
  rw [← hs']
  subst hn
  refine ⟨hroom, hnum', ?_, ?_, ?_, ?_, ?_, ?_, ?_, ?_, ?_, ?_⟩
  · rw [hs']
    refine ((h.write p).markDirty.markDirty).mono (fun k hk => hk) ?_
    rintro k ⟨⟨rfl | rfl, h0⟩, h1⟩
    · exact absurd rfl h0
    · exact absurd rfl h1
  · rw [hs', pageDirty_pagerMarkDirty, Function.update_of_ne (by omega),
      pageDirty_pagerMarkDirty, Function.update_self, Function.update_self]
    exact ⟨rfl, rfl⟩
  · intro k hk hlt
    have hq := writeColumns_before definitions 0
      (entryHead (s.page 0) (catalogNodeNumTables (s.page 0)) s.numPages name
        definitions.length) hlt
    rw [hrun, entryHead_before _ _ _ _ hlt] at hq
    rw [hzero', hbehind k hk]
    exact hq
  · rw [hzero', hcount]
  · rw [hzero']
    exact hdesc.congr hsame
  · rw [hzero', hsame.rootPage, hrootPage]
  · rw [hroot']
    exact h.root
  · intro hlen k hk
    rw [hzero', hbehind k ?_, hbehind' hlen k hk]
    rw [catalogNodeTable] at hk
    omega
  · rw [hzero', ← hname]
    refine hentry _ ?_
    rw [catalogNodeTable]
    omega
  · intro i hi
    rw [hzero', ← hcolumns i hi]
    refine hentry _ ?_
    rw [columnSlot, catalogNodeTable]
    omega

end Columns

/-- **A `CREATE TABLE` ends in one of these ways.** -/
theorem createTable_spec {s : Pager} (hs : s.Sound) (hpos : 0 < s.numPages) (name : List UInt8)
    {definitions : List ColumnDefinition} (hv : ValidDefinitions definitions) :
    CreateOutcome s name definitions hv (createTable s name definitions) := by
  unfold createTable
  by_cases hfull : maxCatalogTables ≤ catalogNodeNumTables (s.page 0)
  · simp only [if_pos hfull]
    exact .full hfull
  simp only [if_neg hfull, pagerAllocatePage]
  by_cases hmax : tablesMaxPages ≤ s.numPages
  · rw [pagerGetPage_none hmax]
    exact .noPage hmax
  -- the page that was allocated is fetched
  obtain ⟨s₁, hget, htaken⟩ := exists_rootTaken hs hpos (not_le.mp hmax)
  rw [hget]
  obtain ⟨s₂, hs₂⟩ : ∃ s₂, s₂ = s₁.setPage s.numPages (leafNodeInit (s₁.page s.numPages)) :=
    ⟨_, rfl⟩
  rw [← hs₂] at htaken
  simp only [bind, Except.bind, ← hs₂, htaken.catalog]
  by_cases hlong : pageSize < catalogNodeTable (catalogNodeNumTables (s.page 0)) + tableNameOffset +
      name.length
  · rw [if_pos hlong]
    exact .overrun hlong
  rw [if_neg hlong, ← entryHead]
  by_cases hnames : ∀ d ∈ definitions, d.name.length ≤ columnNameSize
  · obtain ⟨q, hrun, hcreated⟩ := htaken.created hs hpos name hv hnames (not_le.mp hfull)
    rw [hrun]
    exact .created hnames hcreated
  · have hlong : ∃ d ∈ definitions, columnNameSize < d.name.length := by
      by_contra hno
      exact hnames fun d hd => not_lt.mp fun hlt => hno ⟨d, hd, hlt⟩
    obtain ⟨q, hrun, hbefore⟩ := exists_writeColumns_refused
      (n := catalogNodeNumTables (s.page 0)) hlong (s.page 0) name s.numPages
    rw [hrun]
    refine .refused hlong htaken.numPages (htaken.write q) fun k hk => ?_
    rw [page_setPage, Function.update_self]
    exact hbefore k hk

/-- Under a name that fits into its field, with pages left and a free entry, two ways remain. -/
theorem createTable_cases {s : Pager} (hs : s.Sound) (hpos : 0 < s.numPages)
    (hcount : catalogNodeNumTables (s.page 0) < maxCatalogTables)
    (hroom : s.numPages < tablesMaxPages) {name : List UInt8} (hname : name.length ≤ columnNameSize)
    {definitions : List ColumnDefinition} (hv : ValidDefinitions definitions) :
    (∃ s', createTable s name definitions =
        .ok (⟨.commandSuccess, [ascii "Column name too long"]⟩, s') ∧
      (∃ d ∈ definitions, columnNameSize < d.name.length) ∧ s'.numPages = s.numPages + 1 ∧
      Evolves s s' {q | q = 0 ∨ q = s.numPages} {q | q = 0 ∨ q = s.numPages} ∧
      ∀ k < catalogNodeTable (catalogNodeNumTables (s.page 0)), s'.page 0 k = s.page 0 k) ∨
    ∃ s', createTable s name definitions = .ok (⟨.commandSuccess, []⟩, s') ∧
      (∀ d ∈ definitions, d.name.length ≤ columnNameSize) ∧ Created s name definitions hv s' := by
  have hout := createTable_spec hs hpos name hv
  generalize createTable s name definitions = r at hout
  cases hout with
  | full hfull => exact absurd hcount (not_lt.mpr hfull)
  | noPage hmax => exact absurd hroom (not_lt.mpr hmax)
  | overrun hover =>
    rw [catalogNodeTable_eq] at hover
    simp only [maxCatalogTables, columnNameSize, pageSize, tableNameOffset] at *
    omega
  | @refused s' hlong hnum hev hbytes => exact Or.inl ⟨s', rfl, hlong, hnum, hev, hbytes⟩
  | @created s' hshort hc => exact Or.inr ⟨s', rfl, hshort, hc⟩

/-- When all names fit, the table is created. -/
theorem createTable_created {s : Pager} (hs : s.Sound) (hpos : 0 < s.numPages)
    (hcount : catalogNodeNumTables (s.page 0) < maxCatalogTables)
    (hroom : s.numPages < tablesMaxPages) {name : List UInt8} (hname : name.length ≤ columnNameSize)
    {definitions : List ColumnDefinition} (hv : ValidDefinitions definitions)
    (hnames : ∀ d ∈ definitions, d.name.length ≤ columnNameSize) :
    ∃ s', createTable s name definitions = .ok (⟨.commandSuccess, []⟩, s') ∧
      Created s name definitions hv s' := by
  rcases createTable_cases hs hpos hcount hroom hname hv with
    ⟨s', -, ⟨d, hd, hlong⟩, -⟩ | ⟨s', hrun, -, hc⟩
  · exact absurd (hnames d hd) (not_le.mpr hlong)
  · exact ⟨s', hrun, hc⟩

/-- When one does not, the statement is refused. -/
theorem createTable_refused {s : Pager} (hs : s.Sound) (hpos : 0 < s.numPages)
    (hcount : catalogNodeNumTables (s.page 0) < maxCatalogTables)
    (hroom : s.numPages < tablesMaxPages) {name : List UInt8} (hname : name.length ≤ columnNameSize)
    {definitions : List ColumnDefinition} (hv : ValidDefinitions definitions)
    (hlong : ∃ d ∈ definitions, columnNameSize < d.name.length) :
    ∃ s', createTable s name definitions =
        .ok (⟨.commandSuccess, [ascii "Column name too long"]⟩, s') ∧
      s'.numPages = s.numPages + 1 ∧
      Evolves s s' {q | q = 0 ∨ q = s.numPages} {q | q = 0 ∨ q = s.numPages} ∧
      ∀ k < catalogNodeTable (catalogNodeNumTables (s.page 0)), s'.page 0 k = s.page 0 k := by
  rcases createTable_cases hs hpos hcount hroom hname hv with ⟨s', hrun, -, hrest⟩ |
    ⟨s', -, hshort, -⟩
  · exact ⟨s', hrun, hrest⟩
  · obtain ⟨d, hd, hlt⟩ := hlong
    exact absurd (hshort d hd) (not_le.mpr hlt)

end MiniDB
