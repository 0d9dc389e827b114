import MiniDB.Console.Shown

/-!
# The console and the store

* `Stores.tables`, `Stores.schema`: the catalog is printed as the store says.
* `PlanNode.erase`, `withoutPages_planPrintNode`: a plan is seen without its pages.
* `Stores.planTree`: so is the plan that is made for a tree.
* `Answerable`: what a line and the pages are to be like.
* `answer_agree`: **the step lemma**: every line shows what it shows of the store.
-/

namespace MiniDB

open BPlusTree Pager Lockstep

variable {s s' : Pager} {ts : List TableInfo} {st : Store} {n depth : ℕ} {r : Relation}
  {tree : AstNode} {name : List UInt8} {rounds : ℕ}

/-! ## The catalog -/

/-- The names of the tables, from number `i` on. -/
theorem printTableNames_eq {p : Page} : {rs : List Relation} → {i : ℕ} →
    (∀ j (h : j < rs.length), decodeName (catalogNodeName p (i + j)) = .ok rs[j].name) →
    printTableNames p (List.range' i rs.length) = .ok (rs.map Relation.line)
  | [], _, _ => rfl
  | r :: rs, i, h => by
    have hfirst : decodeName (catalogNodeName p i) = .ok r.name := h 0 (Nat.succ_pos _)
    have hrest : printTableNames p (List.range' (i + 1) rs.length) =
        .ok (rs.map Relation.line) := printTableNames_eq fun j hj => by
      rw [Nat.add_assoc, Nat.add_comm 1 j]
      exact h (j + 1) (Nat.succ_lt_succ hj)
    rw [List.length_cons, List.range'_succ, printTableNames, hrest]
    rw [decodeName] at hfirst
    obtain ⟨len, hlen, hname⟩ := bind_eq_ok hfirst
    simp only [hlen, ok_bind]
    rw [Except.ok.inj hname]
    rfl

/-- **The command `.tables`.** -/
theorem Stores.tables (h : Stores s ts st) :
    ∃ s', tablesCommand s = .ok (st.tableLines, s') ∧ Stores s' ts st := by
  obtain ⟨s', hget, hf⟩ := pagerGetPage_of_lt h.database.sound h.database.pos
  have h' := h.same hf.evolves
  refine ⟨s', ?_, h'⟩
  have hnames : printTableNames (s'.page 0) (List.range (catalogNodeNumTables (s'.page 0))) =
      .ok (st.map Relation.line) := by
    rw [h'.database.count, h'.length, List.range_eq_range']
    refine printTableNames_eq fun j hj => ?_
    rw [Nat.zero_add]
    exact (h'.named j st[j] (List.getElem?_eq_getElem hj)).table
  simp only [tablesCommand, hget, hnames, ok_bind]
  rfl

/-- The type that is stored for a column is printed as its name. -/
theorem columnTypeName_toByte (t : ColumnType) : columnTypeName t.toByte = t.typeName := by
  cases t <;> rfl

/-- The columns of a table, from number `i` on. -/
theorem printColumns_eq {p : Page} : {ds : List ColumnDefinition} → {i : ℕ} →
    (∀ j (h : j < ds.length), decodeName (columnName p n (i + j)) = .ok ds[j].name ∧
      storedType p n (i + j) = ds[j].columnType.toByte) →
    printColumns p n (List.range' i ds.length) = .ok (ds.map ColumnDefinition.line)
  | [], _, _ => rfl
  | d :: ds, i, h => by
    obtain ⟨hfirst, htype⟩ : decodeName (columnName p n i) = .ok d.name ∧
        storedType p n i = d.columnType.toByte := h 0 (Nat.succ_pos _)
    have hrest : printColumns p n (List.range' (i + 1) ds.length) =
        .ok (ds.map ColumnDefinition.line) := printColumns_eq fun j hj => by
      rw [Nat.add_assoc, Nat.add_comm 1 j]
      exact h (j + 1) (Nat.succ_lt_succ hj)
    rw [List.length_cons, List.range'_succ, printColumns, hrest, htype, columnTypeName_toByte]
    rw [decodeName] at hfirst
    obtain ⟨len, hlen, hname⟩ := bind_eq_ok hfirst
    simp only [hlen, ok_bind]
    rw [Except.ok.inj hname]
    rfl

/-- The columns of a table of the store. -/
theorem Stores.columns (h : Stores s ts st) (hr : st[n]? = some r) :
    printColumns (s.page 0) n (List.range (catalogNodeColumnCount (s.page 0) n)) =
      .ok (r.definitions.map ColumnDefinition.line) := by
  have hn : n < ts.length := h.length ▸ (List.getElem?_eq_some_iff.mp hr).1
  have himpl := h.implements n ts[n] r (List.getElem?_eq_getElem hn) hr
  have hdescribes := h.database.describes n ts[n] (List.getElem?_eq_getElem hn)
  rw [himpl.schema] at hdescribes
  have hlen : r.schema.types.length = r.definitions.length := List.length_map _
  rw [hdescribes.columnCount, hlen, List.range_eq_range']
  refine printColumns_eq fun j hj => ⟨?_, ?_⟩
  · have hcolumns := (h.named n r hr).columns j (by rwa [Relation.names, List.length_map])
    rw [hcolumns]
    simp only [Relation.names, List.getElem_map]
  · rw [Nat.zero_add, hdescribes.storedType (hlen ▸ hj)]
    simp only [Relation.schema, schemaOf, List.getElem_map]

/-- **The command `.schema`.** -/
theorem Stores.schema (h : Stores s ts st) (rounds : ℕ) (name : List UInt8) :
    printTableSchema rounds s name = st.schemaLines rounds name := by
  unfold printTableSchema Store.schemaLines
  cases findIdentifier rounds (tokenizerInit name) Token.cleared with
  | error f => rfl
  | ok token =>
    rw [ok_bind, ok_bind]
    split
    · rfl
    · rw [h.find]
      cases hfind : st.find token.text with
      | none => rfl
      | some n =>
        obtain ⟨r, hr⟩ := Store.exists_relation hfind
        rw [ok_bind]
        simp only [hr]
        exact h.columns hr

/-! ## Plans -/

/-- The plan whose table begins at no page. -/
def PlanNode.erase : PlanNode → PlanNode
  | .tableScan _ rowSize => .tableScan 0 rowSize
  | .pkLookup _ key rowSize => .pkLookup 0 key rowSize
  | .filter child condition => .filter child.erase condition
  | .projection child columns => .projection child.erase columns
  | .insert _ values => .insert 0 values

/-- The line about the page. -/
theorem tellsPage_root (depth : ℕ) (value : List UInt8) :
    tellsPage (propertyLine depth "root_page_num" value) = true := by
  have hdrop : (propertyLine depth "root_page_num" value).dropWhile (fun b => b == 32) =
      ascii "root_page_num" ++ ascii ": " ++ value := by
    rw [propertyLine, indented, List.dropWhile_append_of_pos fun b hb => by
      rw [List.eq_of_mem_replicate hb]
      rfl]
    rfl
  rw [tellsPage, hdrop]
  rfl

/-- Lines without those about pages. -/
def withoutPages (lines : List (List UInt8)) : List (List UInt8) :=
  lines.filter fun line => ! tellsPage line

/-- The line about the page of a node is left out. -/
theorem withoutPages_root (kind : String) (type value : List UInt8) (rest : List (List UInt8)) :
    withoutPages (nodeLines kind type depth (propertyLine depth "root_page_num" value :: rest)) =
      withoutPages (nodeLines kind type depth rest) := by
  unfold withoutPages nodeLines
  rw [List.filter_cons, List.filter_cons_of_neg (a := propertyLine depth _ value)
    (by rw [tellsPage_root]; decide), List.filter_cons]

/-- **A plan is printed as the one whose table begins at no page.** -/
theorem withoutPages_planPrintNode (plan : PlanNode) (depth : ℕ) :
    withoutPages (planPrintNode plan depth) = withoutPages (planPrintNode plan.erase depth) := by
  induction plan generalizing depth with
  | tableScan root rowSize =>
    rw [PlanNode.erase, planPrintNode, planPrintNode, withoutPages_root, withoutPages_root]
  | pkLookup root key rowSize =>
    rw [PlanNode.erase, planPrintNode, planPrintNode, withoutPages_root, withoutPages_root]
  | insert root values =>
    rw [PlanNode.erase, planPrintNode, planPrintNode, withoutPages_root, withoutPages_root]
  | filter child condition ih =>
    have hchild := ih (depth + 2)
    unfold withoutPages at hchild
    simp only [PlanNode.erase, planPrintNode, withoutPages, nodeLines, List.cons_append,
      List.filter_cons, List.filter_append, hchild]
  | projection child columns ih =>
    have hchild := ih (depth + 2)
    unfold withoutPages at hchild
    simp only [PlanNode.erase, planPrintNode, withoutPages, nodeLines, List.filter_cons,
      List.filter_append, hchild]

/-- What is seen of lines. -/
theorem filter_isSeen (lines : List (List UInt8)) :
    (lines.map Reply.line).filter Reply.isSeen = (withoutPages lines).map Reply.line := by
  rw [List.filter_map]
  rfl

theorem erase_project (columns : List Expr) (source : PlanNode) :
    (project columns source).erase = project columns source.erase := by
  unfold project
  split <;> rfl

theorem erase_sourceFor (root rowSize : ℕ) (where_ : Option Expr) (key : Option Int64) :
    (sourceFor root rowSize where_ key).erase = sourceFor 0 rowSize where_ key := by
  cases key <;> cases where_ <;> rfl

/-- **The plan that is built** is that of the store, at some page. -/
theorem Presents.buildPlan {table : Table} {t : PageTreeAny} (h : Presents s table n t r)
    (tree : AstNode) :
    (∃ f f', MiniDB.buildPlan s tree table = .error f ∧ r.planFor tree = .error f') ∨
      ∃ plan, MiniDB.buildPlan s tree table = .ok plan ∧ r.planFor tree = .ok plan.erase := by
  cases tree with
  | insert name values =>
    refine Or.inr ⟨.insert table.rootPageNum values, ?_, rfl⟩
    rw [MiniDB.buildPlan, h.holds.find]
    rfl
  | select name isStar columns where_ =>
    have hsource := h.buildSource table.rootPageNum r.schema.rowSize where_
    rw [Relation.planFor]
    cases hplan : r.plan where_ with
    | error f =>
      rw [hplan] at hsource
      refine Or.inl ⟨f, f, ?_, rfl⟩
      rw [MiniDB.buildPlan, h.holds.find]
      simp only [ok_bind, h.holds.describes.rowSize, hsource]
      rfl
    | ok key =>
      rw [hplan] at hsource
      refine Or.inr ⟨_, buildPlan_eq h.holds.find
        (by rw [h.holds.describes.rowSize]; exact hsource) name isStar columns, ?_⟩
      rw [erase_project, erase_sourceFor]
      rfl
  | createTable _ _ | updateTable _ _ _ _ | deleteTable _ _ =>
    refine Or.inl ⟨.uninitialised, .uninitialised, ?_, rfl⟩
    rw [MiniDB.buildPlan, h.holds.find]
    rfl

/-- **The command `.plan`**, behind the parser. -/
theorem Stores.planTree (h : Stores s ts st) (tree : AstNode) :
    (∃ f f', MiniDB.planTree s tree = .error f ∧ st.planLines tree = .error f') ∨
      ∃ lines lines' s', MiniDB.planTree s tree = .ok (lines, s') ∧
        st.planLines tree = .ok lines' ∧ withoutPages lines = withoutPages lines' ∧
        Stores s' ts st := by
  obtain ⟨s', hget, hf⟩ := pagerGetPage_of_lt h.database.sound h.database.pos
  have h' := h.same hf.evolves
  simp only [MiniDB.planTree, Store.planLines, hget, h'.find, ok_bind]
  cases hfind : st.find tree.table with
  | none => exact Or.inr ⟨_, _, s', rfl, rfl, rfl, h'⟩
  | some n =>
    obtain ⟨r, hr⟩ := Store.exists_relation hfind
    obtain ⟨x, -, -, -, hp⟩ := h'.presents hfind hr
    simp only [Option.bind_some, hr]
    rcases hp.buildPlan tree with ⟨f, f', hbuild, hplan⟩ | ⟨plan, hbuild, hplan⟩
    · exact Or.inl ⟨f, f', by rw [hbuild]; rfl, by rw [hplan]; rfl⟩
    · refine Or.inr ⟨planPrint plan, planPrint plan.erase, s', by rw [hbuild]; rfl,
        by rw [hplan]; rfl, withoutPages_planPrintNode plan 0, h'⟩

/-! ## Lines -/

/-- A statement has room, moves only pages that are dirty, and leaves a row in every leaf but the
first.  Nothing is said about `.btree`. -/
def Answerable (s : Pager) : ConsoleLine → Prop
  | .btree => False
  | .statement line => ∀ tree, statementText line = .ok (.inr tree) →
      tree.HasRoom s ∧ tree.MovesDirty s ∧ KeepsLeaves s tree
  | _ => True

/-- What the parser returns is feasible. -/
theorem Answerable.feasible {line : List UInt8} (h : Answerable s (.statement line))
    (htext : statementText line = .ok (.inr tree)) : Feasible s tree := by
  obtain ⟨p, hparse⟩ := parseStatement_of_text htext
  obtain ⟨hroom, hmoves, hleaves⟩ := h tree htext
  exact ⟨parseStatement_parsed hparse, parseStatement_scanned hparse, hroom, hmoves, hleaves⟩

/-- Lines that do not come from the pages. -/
theorem Keeps.printing (h : Keeps s st) (lines : Exec (List (List UInt8))) :
    Agree Keeps ((lines.map (ConsoleLine.printing s)).map seen)
      ((lines.map st.printing).map seen) := by
  cases lines with
  | error f => exact .fail f f
  | ok lines => exact .step h

/-- A statement. -/
theorem Keeps.statement {line : List UInt8} (h : Keeps s st)
    (hok : Answerable s (.statement line)) :
    Agree Keeps (processCommand s line)
      (statementText line >>= Sum.elim (fun o => .ok (o, st)) st.exec) := by
  rw [processCommand_eq]
  cases htext : statementText line with
  | error f => exact .fail f f
  | ok text =>
    cases text with
    | inl o => exact .step h
    | inr tree => exact execute_agree h (hok.feasible htext)

/-- The plan of a statement. -/
theorem Keeps.plan (h : Keeps s st) (sql : List UInt8) :
    Agree Keeps (((planCommand s sql).map fun r => ConsoleLine.printing r.2 r.1).map seen)
      (((planText sql >>= Sum.elim .ok st.planLines).map st.printing).map seen) := by
  obtain ⟨ts, h⟩ := h
  rw [planCommand_eq]
  cases planText sql with
  | error f => exact .fail f f
  | ok text =>
    cases text with
    | inl lines => exact .step ⟨ts, h⟩
    | inr tree =>
      rcases h.planTree tree with ⟨f, f', hrun, hplan⟩ | ⟨lines, lines', s', hrun, hplan, hsame, h'⟩
      · simp only [ok_bind, Sum.elim_inr, hrun, hplan]
        exact .fail f f'
      · simp only [ok_bind, Sum.elim_inr, hrun, hplan]
        have hseen : (lines.map Reply.line).filter Reply.isSeen =
            (lines'.map Reply.line).filter Reply.isSeen := by
          rw [filter_isSeen, filter_isSeen, hsame]
        show Agree Keeps (.ok ((lines.map Reply.line).filter Reply.isSeen, s'))
          (.ok ((lines'.map Reply.line).filter Reply.isSeen, st))
        rw [hseen]
        exact .step ⟨ts, h'⟩

/-- **The step lemma**: a line shows what it shows of the store. -/
theorem answer_agree {line : ConsoleLine} (h : Keeps s st) (hok : Answerable s line) :
    Agree Keeps ((line.run rounds s).map seen) ((st.answer rounds line).map seen) := by
  cases line with
  | empty => exact .step h
  | exit => exact .step h
  | btree => exact hok.elim
  | tokens sql => exact h.printing _
  | ast sql => exact h.printing _
  | tables =>
    obtain ⟨ts, h⟩ := h
    obtain ⟨s', hrun, h'⟩ := h.tables
    simp only [ConsoleLine.run, hrun]
    exact .step ⟨ts, h'⟩
  | schema name =>
    obtain ⟨ts, hs⟩ := h
    simp only [ConsoleLine.run, hs.schema]
    exact Keeps.printing ⟨ts, hs⟩ _
  | plan sql => exact h.plan sql
  | unrecognized line => exact .step h
  | statement line =>
    have hreplies : Agree Keeps ((ConsoleLine.statement line).run rounds s)
        (st.answer rounds (.statement line)) :=
      (h.statement hok).map (fun _ _ _ => rfl) fun _ _ _ h => h
    exact hreplies.map (fun _ _ _ => rfl) fun _ _ _ h => h

end MiniDB
