import MiniDB.Cursors.Meaning
import MiniDB.Sessions.Keys
import MiniDB.Sessions.Naming
import MiniDB.Sessions.Scanning

/-!
# Plans

A condition on the primary key is answered by a lookup, which trusts the keys of the cells; the
plain plan scans the table and compares the values in the rows.  Whatever plan is chosen, its rows
are what it means.

* `KeyNamed`: the name of the primary key leads to its column.
* `Holds.planRows_key`: **the two plans agree on a table in order**.
* `KeepsPlans`: the runs that keep the tables so.
* `reachable_planRows`: **the plan that is chosen produces the rows of the plain one**.
* `NamesEnd`, `WhereFits`, `Holds.exists_plan`: the conditions for which there is a plan.
* `select_means`: **the rows of a `SELECT` are what its plan means**.
-/

namespace MiniDB

open BPlusTree Pager

variable {s s' : Pager} {table : Table} {n i : ℕ} {σ : Schema} {t : PageTreeAny} {p q : Page}
  {name column : List UInt8} {definitions : List ColumnDefinition}
  {hv : ValidDefinitions definitions} {key : Int64}

/-! ## The name of the primary key -/

/-- The name of the primary key can be read back, and so can those of the columns in front of it,
which are different ones. -/
def KeyNamed (p : Page) (n : ℕ) : Prop :=
  ∃ before key, before.length = catalogNodePrimaryKeyColumn p n ∧
    NamesFrom p n 0 (before ++ [key]) ∧ ∀ other ∈ before, lowercase other ≠ lowercase key

/-- The definitions that make it so. -/
def KeyApart (definitions : List ColumnDefinition) : Prop :=
  ∃ before d after, definitions = before ++ d :: after ∧ d.isPrimary = true ∧
    d.name.length < columnNameSize ∧ ∀ c ∈ before, c.isPrimary = false ∧
      c.name.length < columnNameSize ∧ lowercase c.name ≠ lowercase d.name

/-- `is_primary_key` compares with the name of the primary key. -/
theorem KeyNamed.isPrimaryKey (h : KeyNamed p n) (column : List UInt8) :
    ∃ b, isPrimaryKey p n column = .ok b ∧
      (b = true → ∀ i, catalogNodeFindColumn p n column = .ok (some i) →
        i = catalogNodePrimaryKeyColumn p n) := by
  obtain ⟨before, key, hlen, hnames, hother⟩ := h
  have hname : ∀ j (hj : j < (before ++ [key]).length), nameEquals column (columnName p n j) =
      .ok (lowercase column == lowercase (before ++ [key])[j]) := by
    intro j hj
    have hdecode := hnames j hj
    rw [Nat.zero_add] at hdecode
    exact nameEquals_of_decodeName hdecode
  have hpk := hname before.length (by simp)
  rw [List.getElem_concat_length rfl] at hpk
  refine ⟨lowercase column == lowercase key, ?_, ?_⟩
  · unfold MiniDB.isPrimaryKey
    rw [← hlen]
    exact hpk
  · intro hsame i hfind
    rw [hsame] at hpk
    obtain ⟨htest, hfront⟩ := findColumn_tests hfind
    rw [← hlen]
    rcases lt_trichotomy i before.length with hlt | heq | hgt
    · -- a column in front of the key has another name
      have hi := hname i (by rw [List.length_append]; omega)
      rw [List.getElem_append_left hlt, htest] at hi
      have hsame' := beq_iff_eq.mp (Except.ok.inj hi).symm
      exact absurd (hsame'.symm.trans (beq_iff_eq.mp hsame)) (hother _ (List.getElem_mem hlt))
    · exact heq
    · rw [hfront _ hgt] at hpk
      cases hpk

/-! ## The two plans -/

/-- What the condition `column = key` says of a row, when `column` is the primary key. -/
def keyTest (σ : Schema) (key : Int64) (row : Row) : Bool :=
  match row.values[σ.primaryKey]? with
  | some (.integer m) => key == m
  | _ => false

/-- **The rows that pass the test are the ones that the lookup finds.** -/
theorem Holds.filter_keyTest (h : Holds s table n σ t) (hkeys : ∀ c ∈ t.2.contents, KeyAgrees σ c)
    (key : Int64) :
    (t.2.contents.map (rowOf σ)).filter (keyTest σ key) = lookupRows σ t key := by
  have hsorted := h.represents.good.ordered.sorted_contents.1
  have htest : ∀ c ∈ t.2.contents, (keyTest σ key ∘ rowOf σ) c = (key == c.1) := by
    intro c hc
    have hagree : (rowOf σ c).values[σ.primaryKey]? = some (.integer c.1) := hkeys c hc
    rw [Function.comp_apply, keyTest, hagree]
  have hrow : rowOf σ = (fun bs => (⟨decodeValues σ.types bs⟩ : Row)) ∘ Prod.snd := rfl
  rw [List.filter_map, List.filter_congr htest, hrow, ← List.map_map, hsorted.filter_key,
    ← Tree.lookup_eq_contents h.represents.good.ordered, lookupRows]
  cases t.2.lookup key <;> rfl

/-- **The two plans agree** on a table none of whose leaves was emptied, and whose rows have the
keys of their cells. -/
theorem Holds.planRows_key (h : Holds s table n σ t) (hfilled : t.2.Filled)
    (hkeys : ∀ c ∈ t.2.contents, KeyAgrees σ c)
    (hfind : catalogNodeFindColumn (s.page 0) n column = .ok (some σ.primaryKey)) (key : Int64)
    (columns : List Expr) :
    planRows s table (project columns (.pkLookup table.rootPageNum key σ.rowSize)) =
      planRows s table (filterPlan table σ.rowSize columns
        (.equals (.column column) (.literalInt key))) := by
  obtain ⟨hscan, hlen⟩ := h.delivers_root
  rw [h.scanRows_iff.mpr hfilled] at hscan hlen
  have htest : ∀ row ∈ t.2.contents.map (rowOf σ),
      rowMatchesWhere (some (.equals (.column column) (.literalInt key))) row (s.page 0) n =
        .ok (keyTest σ key row) := by
    intro row hrow
    obtain ⟨c, hc, rfl⟩ := List.mem_map.mp hrow
    have hagree : (rowOf σ c).values[σ.primaryKey]? = some (.integer c.1) := hkeys c hc
    rw [keyTest, hagree]
    exact testRow_equals hfind (hkeys c hc)
  have hfilter := hscan.filter _ h.find htest
  rw [h.filter_keyTest hkeys] at hfilter
  have hfew : (lookupRows σ t key).length ≤ 1 := length_lookupRows σ t key
  exact planRows_project rfl rfl (h.delivers_pkLookup key) hfilter (by decide) (by omega)
    (lt_of_le_of_lt hfew (by decide)) h.find columns

/-! ## Runs -/

theorem KeyNamed.congr (h : KeyNamed p n) (hq : SameEntry n p q)
    (hcount : catalogNodeColumnCount p n ≤ maxTableColumns)
    (hpk : catalogNodePrimaryKeyColumn p n < catalogNodeColumnCount p n) : KeyNamed q n := by
  obtain ⟨before, key, hlen, hnames, hother⟩ := h
  refine ⟨before, key, hlen.trans hq.primaryKey.symm, ?_, hother⟩
  intro j hj
  have hlt : j < before.length + 1 := by simpa using hj
  rw [hq.columnName (by omega)]
  exact hnames j hj

/-- A table whose primary key has a name of its own. -/
theorem Created.keyNamed (h : Created s name definitions hv s')
    (hterm : ∀ d ∈ definitions, 0 ∉ d.name) (hapart : KeyApart definitions) :
    KeyNamed (s'.page 0) (catalogNodeNumTables (s.page 0)) := by
  obtain ⟨before, d, after, hsplit, hd, hshort, hbefore⟩ := hapart
  have hpk : catalogNodePrimaryKeyColumn (s'.page 0) (catalogNodeNumTables (s.page 0)) =
      before.length := by
    rw [h.describes.primaryKey]
    show definitions.findIdx ColumnDefinition.isPrimary = _
    rw [hsplit, List.findIdx_append, List.findIdx_cons, hd]
    have hnone : before.findIdx ColumnDefinition.isPrimary = before.length :=
      List.findIdx_eq_length_of_false fun c hc => (hbefore c hc).1
    rw [hnone, if_neg (lt_irrefl _)]
    exact Nat.zero_add _
  refine ⟨before.map ColumnDefinition.name, d.name, by rw [List.length_map, hpk], ?_, ?_⟩
  · have hfront : definitions = (before ++ [d]) ++ after := by
      rw [hsplit, List.append_assoc]
      rfl
    have hmap : before.map ColumnDefinition.name ++ [d.name] =
        (before ++ [d]).map ColumnDefinition.name := by
      rw [List.map_append]
      rfl
    have hshorts : ∀ c ∈ before ++ [d], c.name.length < columnNameSize := by
      intro c hc
      rcases List.mem_append.mp hc with hc | hc
      · exact (hbefore c hc).2.1
      · rw [List.mem_singleton.mp hc]
        exact hshort
    rw [hmap]
    generalize before ++ [d] = front at hfront hshorts
    intro j hj
    rw [List.length_map] at hj
    have hcolumn := h.columns j (by rw [hfront, List.length_append]; omega)
    simp only [hfront, List.getElem_append_left hj] at hcolumn
    have hmem := List.getElem_mem hj
    rw [Nat.zero_add, hcolumn, List.getElem_map]
    exact decodeName_nameField (hshorts _ hmem)
      (hterm _ (hfront ▸ List.mem_append_left after hmem))
  · intro other hmem
    obtain ⟨c, hc, rfl⟩ := List.mem_map.mp hmem
    exact (hbefore c hc).2.2

/-- A statement that the parser returns, which does not run out of pages half way, empties no leaf
but the first, leaves the primary keys as they are, and creates no table whose primary key can be
taken for another column. -/
def KeepsPlans (s : Pager) (tree : AstNode) : Prop :=
  KeepsLeaves s tree ∧ KeepsKeys s tree ∧ tree.Scanned ∧
    ∀ name definitions, tree = .createTable name definitions → KeyApart definitions

/-- **The plan that is chosen produces the rows of the plain one**, in every state of a run that
keeps the leaves, the keys and the names. -/
theorem reachable_planRows (h : Reachable KeepsPlans s)
    (hfind : catalogNodeFindTable (s.page 0) name = .ok (some n))
    (hcolumn : catalogNodeFindColumn (s.page 0) n column = .ok (some i)) {value : Expr}
    (htype : typeMatches (storedType (s.page 0) n i) value = true) (isStar : Bool)
    (columns : List Expr) :
    ∃ plan, buildPlan s (.select name isStar columns (some (.equals (.column column) value)))
        (openTable s n name) = .ok plan ∧
      planRows s (openTable s n name) plan = planRows s (openTable s n name)
        (filterPlan (openTable s n name) (catalogNodeRowSize (s.page 0) n) columns
          (.equals (.column column) value)) := by
  obtain ⟨ts, hdb, hfilled, hkeys⟩ : ∃ ts, Database s ts ∧ AllFilled ts ∧ KeysAgree ts := by
    refine h.invariant (P := fun _ ts => AllFilled ts ∧ KeysAgree ts)
      (fun s tree hok => hok.1.1) ?_ ?_
    · exact fun _ _ => ⟨fun x hx => absurd hx List.not_mem_nil,
        fun x hx => absurd hx List.not_mem_nil⟩
    · rintro s tree s' ts ts' hdb - ⟨hfilled, hkeys⟩ hok - hchange
      exact ⟨hchange.filled hdb hfilled hok.1, hchange.keysAgree hdb hkeys hok.2.1⟩
  obtain ⟨-, -, hnamed⟩ : ∃ ts, Database s ts ∧
      ∀ n < catalogNodeNumTables (s.page 0), KeyNamed (s.page 0) n := by
    refine h.entries (fun s tree hok => hok.1.1)
      (fun p q n hsame hcount hpk hn => hn.congr hsame hcount hpk) ?_
    rintro s name definitions hv s' ⟨-, -, hscan, hapart⟩ hc
    exact hc.keyNamed (fun d hd => (hscan.2 d hd).zero_notMem) (hapart _ _ rfl)
  obtain ⟨x, hx, hholds⟩ := hdb.holds hfind
  have hn : n < catalogNodeNumTables (s.page 0) := by
    rw [hdb.count]
    exact (List.getElem?_eq_some_iff.mp hx).1
  obtain ⟨b, hpk, hown⟩ := (hnamed n hn).isPrimaryKey column
  have hbuild := buildSource_eq hpk value (openTable s n name).rootPageNum
    (catalogNodeRowSize (s.page 0) n)
  cases b with
  | false =>
    -- the plain plan itself
    exact ⟨_, buildPlan_eq hholds.find hbuild name isStar columns, rfl⟩
  | true =>
    obtain rfl := hown rfl i hcolumn
    rw [hholds.describes.primaryKey] at hcolumn htype
    have hinteger : storedType (s.page 0) n x.schema.primaryKey =
        ColumnType.columnInteger.toByte := by
      obtain ⟨hlt, hty⟩ := List.getElem?_eq_some_iff.mp x.schema.integer
      rw [hholds.describes.storedType hlt, hty]
    rw [hinteger] at htype
    obtain ⟨key, rfl⟩ := typeMatches_integer htype
    have hmem := List.mem_of_getElem? hx
    refine ⟨_, buildPlan_eq hholds.find hbuild name isStar columns, ?_⟩
    rw [hholds.describes.rowSize]
    exact hholds.planRows_key (hfilled x hmem) (hkeys x hmem) hcolumn key columns

/-- Two rows, the key of one of which was assigned the value it has, and the condition `id = 2`. -/
theorem reachable_planRows_notes : ∃ s c d, Reachable KeepsPlans s ∧
    OneTable s notesName notes validNotes ⟨0, .leaf 1 [c, d]⟩ ∧ ∃ plan,
    buildPlan s (.select notesName true []
        (some (.equals (.column (ascii "id")) (.literalInt 2)))) (openTable s 0 notesName) =
          .ok plan ∧
      planRows s (openTable s 0 notesName) plan = planRows s (openTable s 0 notesName)
        (filterPlan (openTable s 0 notesName) (catalogNodeRowSize (s.page 0) 0) []
          (.equals (.column (ascii "id")) (.literalInt 2))) := by
  have hcreate : ∀ s, KeepsPlans s (.createTable notesName notes) := by
    refine fun s => ⟨⟨trivial, by rintro _ _ ⟨⟩⟩, ⟨trivial, by rintro _ _ _ _ ⟨⟩⟩, ?_, ?_⟩
    · refine ⟨⟨by decide, by decide⟩, ?_⟩
      intro d hd
      exact ⟨by revert d; decide, by revert d; decide⟩
    · rintro _ _ ⟨⟩
      exact ⟨[], _, _, rfl, rfl, by decide, fun c hc => absurd hc List.not_mem_nil⟩
  have hupdate : ∀ s, KeepsKeys s keepKey → KeepsPlans s keepKey := by
    refine fun s hkeys => ⟨⟨trivial, by rintro _ _ ⟨⟩⟩, hkeys, ?_, by rintro _ _ ⟨⟩⟩
    intro text htext
    cases List.mem_singleton.mp htext
  obtain ⟨s, c, d, hreach, h⟩ := exists_keptKeys hcreate
    (fun s key hcan => ⟨⟨hcan, by rintro _ _ ⟨⟩⟩, ⟨hcan, by rintro _ _ _ _ ⟨⟩⟩,
      areScanned_notesRow key, by rintro _ _ ⟨⟩⟩) hupdate
  have htype : storedType (s.page 0) 0 0 = ColumnType.columnInteger.toByte :=
    h.holds.describes.storedType (i := 0) (by decide)
  have hmatch : typeMatches (storedType (s.page 0) 0 0) (.literalInt 2) = true := by
    rw [htype]
    rfl
  exact ⟨s, c, d, hreach, h, reachable_planRows hreach h.find h.findColumn_id hmatch true []⟩

/-- Both rows show the key `7`; the lookup finds neither. -/
theorem not_planRows_sevens : ∃ s, Reachable Finishes s ∧ ∃ plan,
    buildPlan s (.select notesName true []
        (some (.equals (.column (ascii "id")) (.literalInt 7)))) (openTable s 0 notesName) =
          .ok plan ∧
      planRows s (openTable s 0 notesName) plan = .ok [] ∧
      ∃ rows, planRows s (openTable s 0 notesName)
        (filterPlan (openTable s 0 notesName) (catalogNodeRowSize (s.page 0) 0) []
          (.equals (.column (ascii "id")) (.literalInt 7))) = .ok rows ∧ rows.length = 2 := by
  obtain ⟨s, c, d, hreach, h, hc, hd, hc7, hd7⟩ := exists_sevens
  have hholds := h.holds
  have hfrom := h.namesFrom (by decide)
  have hcolumn : catalogNodePrimaryKeyColumn (s.page 0) 0 = 0 := hholds.describes.primaryKey
  have hpk : isPrimaryKey (s.page 0) 0 (ascii "id") = .ok true := by
    rw [isPrimaryKey_eq hfrom (by rw [hcolumn]; decide)]
    simp only [hcolumn]
    rfl
  have hsource := buildSource_eq hpk (.literalInt 7) (openTable s 0 notesName).rootPageNum
    (catalogNodeRowSize (s.page 0) 0)
  refine ⟨s, hreach, _, buildPlan_eq hholds.find hsource notesName true [], ?_, ?_⟩
  · obtain ⟨s', hdrain, -⟩ := hholds.drain_pkLookup 7
    have hnone : lookupRows (schemaOf notes validNotes) ⟨0, .leaf 1 [c, d]⟩ 7 = [] := by
      have hmiss : [c, d].lookup 7 = none := by
        refine Tree.lookup_eq_none ?_
        intro a ha
        rcases List.mem_cons.mp ha with rfl | ha
        · rw [hc]
          decide
        · rw [List.mem_singleton.mp ha, hd]
          decide
      show (([c, d].lookup 7).map _).toList = []
      rw [hmiss]
      rfl
    rw [hnone] at hdrain
    rw [hholds.describes.rowSize]
    exact (planRows_eq rfl).trans (congrArg (Except.map Prod.fst) hdrain)
  · obtain ⟨hscan, -⟩ := hholds.delivers_root
    have hrows : scanRows (schemaOf notes validNotes) s.page
        (Tree.leaf 1 [c, d] : PageTree 0).leaves =
          [c, d].map (rowOf (schemaOf notes validNotes)) := rfl
    rw [hrows] at hscan
    have htest : ∀ row ∈ [c, d].map (rowOf (schemaOf notes validNotes)),
        rowMatchesWhere (some (.equals (.column (ascii "id")) (.literalInt 7))) row (s.page 0) 0 =
          .ok true := by
      intro row hrow
      obtain ⟨a, ha, rfl⟩ := List.mem_map.mp hrow
      rcases List.mem_cons.mp ha with rfl | ha
      · exact testRow_equals h.findColumn_id hc7
      · rw [List.mem_singleton.mp ha]
        exact testRow_equals h.findColumn_id hd7
    have hkept : ([c, d].map (rowOf (schemaOf notes validNotes))).filter (fun _ => true) =
        [c, d].map (rowOf (schemaOf notes validNotes)) := List.filter_true _
    have hdelivers := hscan.filter _ hholds.find htest
    rw [hkept, List.length_map] at hdelivers
    obtain ⟨s', hdrain, -⟩ := hdelivers.drain (show 4 ≤ scanFuel by decide)
      (show 2 < scanFuel by decide)
    refine ⟨[c, d].map (rowOf (schemaOf notes validNotes)), ?_, rfl⟩
    rw [hholds.describes.rowSize]
    exact (planRows_eq rfl).trans (congrArg (Except.map Prod.fst) hdrain)

/-! ## What a plan means -/

/-- The names of the columns are shorter than their fields. -/
def NamesEnd (p : Page) (n : ℕ) : Prop :=
  ∀ i < catalogNodeColumnCount p n, ∃ name, decodeName (columnName p n i) = .ok name

/-- The condition is absent, or it compares a column with a literal of its type; when several
columns are called so, of the type of each. -/
inductive WhereFits (p : Page) (n : ℕ) : Option Expr → Prop
  | absent : WhereFits p n none
  | equals {name : List UInt8} {value : Expr} :
      (∀ i < catalogNodeColumnCount p n, nameEquals name (columnName p n i) = .ok true →
        typeMatches (storedType p n i) value = true) →
      WhereFits p n (some (.equals (.column name) value))

/-- There is a plan for such a condition. -/
theorem Holds.exists_plan (h : Holds s table n σ t) (hnames : NamesEnd (s.page 0) n)
    {where_ : Option Expr} (hwhere : WhereFits (s.page 0) n where_) (name : List UInt8)
    (isStar : Bool) (columns : List Expr) :
    ∃ plan, buildPlan s (.select name isStar columns where_) table = .ok plan := by
  have hpk := h.describes.primaryKey
  have hlt : catalogNodePrimaryKeyColumn (s.page 0) n < catalogNodeColumnCount (s.page 0) n := by
    rw [hpk, h.describes.columnCount]
    exact σ.primaryKey_lt
  cases hwhere with
  | absent => exact ⟨_, buildPlan_eq h.find rfl name isStar columns⟩
  | @equals column value htype =>
    obtain ⟨key, hkey⟩ := hnames _ hlt
    have hprimary : isPrimaryKey (s.page 0) n column = .ok (lowercase column == lowercase key) :=
      nameEquals_of_decodeName hkey
    have hsource := buildSource_eq hprimary value table.rootPageNum
      (catalogNodeRowSize (s.page 0) n)
    cases hsame : lowercase column == lowercase key with
    | false =>
      rw [hsame] at hsource
      exact ⟨_, buildPlan_eq h.find hsource name isStar columns⟩
    | true =>
      -- the literal is of the type of the primary key
      have hmatch := htype _ hlt (by rw [nameEquals_of_decodeName hkey, hsame])
      obtain ⟨hpos, hty⟩ := List.getElem?_eq_some_iff.mp σ.integer
      rw [hpk, h.describes.storedType hpos, hty] at hmatch
      obtain ⟨m, rfl⟩ := typeMatches_integer hmatch
      rw [hsame] at hsource
      exact ⟨_, buildPlan_eq h.find hsource name isStar columns⟩

/-- **The rows of a `SELECT` are what its plan means**, in every database. -/
theorem select_means {ts : List TableInfo} (hdb : Database s ts)
    (hfind : catalogNodeFindTable (s.page 0) name = .ok (some n))
    (hnames : NamesEnd (s.page 0) n) {where_ : Option Expr} (hwhere : WhereFits (s.page 0) n where_)
    {columns : List Expr}
    (hvalid : validateColumns s (openTable s n name) n columns where_ = .ok none) (isStar : Bool) :
    ∃ x plan, ts[n]? = some x ∧
      buildPlan s (.select name isStar columns where_) (openTable s n name) = .ok plan ∧
      plan.Means x.schema x.tree s n (planRows s (openTable s n name) plan) := by
  obtain ⟨x, hx, h⟩ := hdb.holds hfind
  obtain ⟨plan, hplan⟩ := h.exists_plan hnames hwhere name isStar columns
  exact ⟨x, plan, hx, hplan, h.planRows_means hvalid hplan⟩

/-- Two rows, two columns in the other order and one of them twice, and a condition on a text. -/
theorem select_means_notes : ∃ s ts x plan, Database s ts ∧ ts[0]? = some x ∧
    buildPlan s (.select notesName false [.column [97], .column (ascii "id"), .column [97]]
      (some (.equals (.column [97]) (.literalString [])))) (openTable s 0 notesName) = .ok plan ∧
    plan.Means x.schema x.tree s 0 (planRows s (openTable s 0 notesName) plan) := by
  obtain ⟨s, -, h, -⟩ := exists_two
  have hfrom := h.namesFrom (by decide)
  have hcount := h.columnCount
  have hname : ∀ i (hi : i < notes.length), decodeName (columnName (s.page 0) 0 i) =
      .ok notes[i].name := by
    intro i hi
    have hdecode := hfrom i (by rwa [List.length_map])
    rwa [Nat.zero_add, List.getElem_map] at hdecode
  have hnames : NamesEnd (s.page 0) 0 := fun i hi => ⟨_, hname i (hcount ▸ hi)⟩
  have hwhere : WhereFits (s.page 0) 0 (some (.equals (.column [97]) (.literalString []))) := by
    refine .equals fun i hi hsame => ?_
    rw [hcount] at hi
    rw [nameEquals_of_decodeName (hname i hi)] at hsame
    have htypes : ∀ i (hi : i < notes.length), (lowercase [97] == lowercase notes[i].name) = true →
        typeMatches notes[i].columnType.toByte (.literalString []) = true := by decide
    have hstored : storedType (s.page 0) 0 i = notes[i].columnType.toByte := by
      rw [h.holds.describes.storedType (by rwa [schemaOf, List.length_map])]
      simp only [schemaOf, List.getElem_map]
    rw [hstored]
    exact htypes i hi (Except.ok.inj hsame)
  have hvalid : validateColumns s (openTable s 0 notesName) 0
      [.column [97], .column (ascii "id"), .column [97]]
      (some (.equals (.column [97]) (.literalString []))) = .ok none := by
    have hlen : catalogNodeColumnCount (s.page 0) 0 =
        (notes.map ColumnDefinition.name).length := by rw [hcount, List.length_map]
    have htext : columnExists (s.page 0) 0 (.column [97]) = .ok true :=
      (columnExists_eq hfrom hlen [97]).trans (by decide)
    have hid : columnExists (s.page 0) 0 (.column (ascii "id")) = .ok true :=
      (columnExists_eq hfrom hlen (ascii "id")).trans (by decide)
    rw [validateColumns_equals _ _ htext]
    simp only [missingColumns, htext, hid]
    rfl
  obtain ⟨x, plan, hx, hplan, hmeans⟩ :=
    select_means h.database h.find hnames hwhere hvalid false
  exact ⟨s, _, x, plan, h.database, hx, hplan, hmeans⟩

end MiniDB
