import MiniDB.Console.Faithful
import MiniDB.Cursors.Typing
import MiniDB.Sessions.Ascending
import MiniDB.Statements.Lowered

/-!
# The console shows what a statement does

A plan holds neither the case of the key's name in a condition nor what the user wrote instead of a
list of columns.  Neither changes what is done with it.

* `printable_of_buildPlan`: the plans of a line are printed as they are.
* `ChosenFor.validateColumns_eq`: **conditions with the same source are checked alike**.
* `execute_of_plan`: **statements about a table with the same plan do the same**.
* `plan_faithful`: **what `.plan` shows decides what the statement does**.
-/

namespace MiniDB

variable {sql sql' name name' : List UInt8} {p p' : Parser} {s s' : Pager} {n n' root rowSize : ℕ}
  {tree tree' : AstNode} {table : Table} {where_ where' : Option Expr}
  {columns columns' : List Expr} {source source' plan plan' : PlanNode} {isStar isStar' : Bool}

/-! ## The source of the rows -/

/-- The source of the rows, and the condition it is chosen for. -/
inductive ChosenFor (s : Pager) (n root rowSize : ℕ) : Option Expr → PlanNode → Prop
  | scan : ChosenFor s n root rowSize none (.tableScan root rowSize)
  | lookup {name : List UInt8} {key : Int64} : isPrimaryKey (s.page 0) n name = .ok true →
      ChosenFor s n root rowSize (some (.equals (.column name) (.literalInt key)))
        (.pkLookup root key rowSize)
  | filter {condition : Expr} : ChosenFor s n root rowSize (some condition)
      (.filter (.tableScan root rowSize) condition)

theorem chosenFor_of_buildSource (h : buildSource s n root rowSize where_ = .ok source) :
    ChosenFor s n root rowSize where_ source := by
  cases where_ with
  | none =>
    cases h
    exact .scan
  | some condition =>
    unfold buildSource at h
    obtain ⟨⟨left, right⟩, hequals, h⟩ := bind_eq_ok h
    obtain ⟨name, hcolumn, h⟩ := bind_eq_ok h
    obtain ⟨isKey, hkey, h⟩ := bind_eq_ok h
    cases isKey with
    | false =>
      cases h
      exact .filter
    | true =>
      obtain ⟨key, hint, h⟩ := bind_eq_ok h
      cases h
      obtain ⟨rfl⟩ : condition = .equals left right := by
        cases condition <;> cases hequals
        rfl
      obtain rfl : left = .column name := by
        cases left <;> cases hcolumn
        rfl
      obtain rfl : right = .literalInt key := by
        cases right <;> cases hint
        rfl
      exact .lookup hkey

/-- Names that are found in one field are the same in lower case. -/
theorem lowercase_eq_of_nameEquals {field : List UInt8} (h : nameEquals name field = .ok true)
    (h' : nameEquals name' field = .ok true) : lowercase name = lowercase name' := by
  rw [nameEquals_eq] at h h'
  obtain ⟨stored, hdecode, heq⟩ := bind_eq_ok h
  obtain ⟨stored', hdecode', heq'⟩ := bind_eq_ok h'
  rw [hdecode] at hdecode'
  cases hdecode'
  rw [beq_iff_eq.mp (Except.ok.inj heq), beq_iff_eq.mp (Except.ok.inj heq')]

/-- The check for a column does not depend on the case. -/
theorem columnExists_congr (h : lowercase name = lowercase name') (catalog : Page) (n : ℕ) :
    columnExists catalog n (.column name) = columnExists catalog n (.column name') := by
  rw [← columnExists_lowered, ← columnExists_lowered catalog n (.column name'), Expr.lowered,
    Expr.lowered, h]

/-- A name that is found at the primary key is the name of a column. -/
theorem columnExists_ne_false {catalog : Page} (h : isPrimaryKey catalog n name = .ok true)
    (hpk : catalogNodePrimaryKeyColumn catalog n < catalogNodeColumnCount catalog n) :
    columnExists catalog n (.column name) ≠ .ok false := by
  intro hno
  obtain ⟨found, hfind, hfound⟩ := bind_eq_ok hno
  cases found with
  | some i => cases hfound
  | none =>
    have htest := findFirst_eq_none hfind _ (List.mem_range.mpr hpk)
    cases h.symm.trans htest

/-- **Conditions with the same source are checked alike.** -/
theorem ChosenFor.validateColumns_eq (h : ChosenFor s n root rowSize where_ source)
    (h' : ChosenFor s n root rowSize where' source)
    (hpk : catalogNodePrimaryKeyColumn (s.page 0) n < catalogNodeColumnCount (s.page 0) n)
    (table : Table) (columns : List Expr) :
    validateColumns s table n columns where_ = validateColumns s table n columns where' := by
  cases h with
  | scan =>
    cases h'
    rfl
  | filter =>
    cases h'
    rfl
  | lookup hkey =>
    cases h' with
    | @lookup name' _ hkey' =>
      have hne := columnExists_ne_false hkey' hpk
      unfold validateColumns
      simp only [Expr.asEquals]
      show (columnExists (s.page 0) n _ >>= _) = (columnExists (s.page 0) n _ >>= _)
      rw [columnExists_congr (lowercase_eq_of_nameEquals hkey hkey')]
      -- a message would hold the name as it was written
      cases hexists : columnExists (s.page 0) n (.column name') with
      | error f => rfl
      | ok found =>
        cases found with
        | false => exact absurd hexists hne
        | true => rfl

/-- They are both there, or neither is. -/
theorem ChosenFor.isSome_eq (h : ChosenFor s n root rowSize where_ source)
    (h' : ChosenFor s n root rowSize where' source) : where_.isSome = where'.isSome := by
  cases h <;> cases h' <;> rfl

/-- The columns of a plan are those of its statement, and what is below them its source. -/
theorem ChosenFor.project_inj (h : ChosenFor s n root rowSize where_ source)
    (h' : ChosenFor s n root rowSize where' source')
    (heq : project columns source = project columns' source') :
    columns = columns' ∧ source = source' := by
  have hother : ∀ {w source source' columns}, ChosenFor s n root rowSize w source →
      source ≠ .projection source' columns := by
    intro w source source' columns hchosen hproj
    cases hchosen <;> cases hproj
  unfold project at heq
  split at heq <;> split at heq
  · cases heq
    exact ⟨rfl, rfl⟩
  · exact absurd heq.symm (hother h')
  · exact absurd heq (hother h)
  · next hnil hnil' =>
    rw [Nat.not_lt, Nat.le_zero, List.length_eq_zero_iff] at hnil hnil'
    exact ⟨hnil.trans hnil'.symm, heq⟩

/-! ## Plans -/

theorem ChosenFor.printable (h : ChosenFor s n root rowSize where_ source)
    (hwhere : ∀ e ∈ where_, e.Plain) : source.Printable := by
  cases h with
  | scan | lookup => trivial
  | filter => exact ⟨trivial, hwhere _ rfl⟩

/-- **The plans of a line** are printed as they are. -/
theorem printable_of_buildPlan (htree : tree.Printable) (h : buildPlan s tree table = .ok plan) :
    plan.Printable := by
  unfold buildPlan at h
  obtain ⟨n, -, h⟩ := bind_eq_ok h
  cases tree with
  | insert name values =>
    cases h
    exact htree.2
  | select name isStar columns where_ =>
    obtain ⟨source, hsource, h⟩ := bind_eq_ok h
    cases h
    have hprintable := (chosenFor_of_buildSource hsource).printable htree.2.2
    split
    · exact ⟨hprintable, htree.2.1⟩
    · exact hprintable
  | _ => cases h

theorem findTable_openTable (hfind : catalogNodeFindTable (s.page 0) name = .ok (some n)) (m : ℕ) :
    findTable (s.page 0) (openTable s m name).tableName = .ok n := by
  unfold findTable
  show (catalogNodeFindTable (s.page 0) name >>= _) = _
  rw [hfind]
  rfl

/-- Statements that are the same in lower case do the same, or are refused alike. -/
theorem execute_alike (h : tree.lowered = tree'.lowered) (s : Pager) :
    Alike s (execute s tree) (execute s tree') := by
  have hleft := (execute_lowered s tree).symm
  rw [h] at hleft
  exact hleft.trans (execute_lowered s tree')

/-- **Statements about a table with the same plan do the same**; only the name of the table may be
written differently in a message. -/
theorem execute_of_plan (hname : lowercase tree.table = lowercase tree'.table)
    (hpk : catalogNodePrimaryKeyColumn (s.page 0) n < catalogNodeColumnCount (s.page 0) n)
    (hfind : catalogNodeFindTable (s.page 0) tree.table = .ok (some n))
    (h : buildPlan s tree (openTable s n tree.table) = .ok plan)
    (h' : buildPlan s tree' (openTable s n tree'.table) = .ok plan) :
    Alike s (execute s tree) (execute s tree') := by
  have hfind' : catalogNodeFindTable (s.page 0) tree'.table = .ok (some n) := by
    rw [← catalogNodeFindTable_lowercase, ← hname, catalogNodeFindTable_lowercase, hfind]
  cases tree with
  | insert name values =>
    unfold buildPlan at h h'
    obtain ⟨_, _, h⟩ := bind_eq_ok h
    obtain ⟨_, _, h'⟩ := bind_eq_ok h'
    cases h
    cases tree' with
    | insert name' values' =>
      cases h'
      have hlower : lowercase name = lowercase name' := hname
      exact execute_alike (by rw [AstNode.lowered, AstNode.lowered, hlower]) s
    | select name' isStar' columns' where' =>
      -- the plan of a `SELECT` is none of an `INSERT`
      obtain ⟨source, hsource, h'⟩ := bind_eq_ok h'
      replace h' := Except.ok.inj h'
      split at h'
      · cases h'
      · subst h'
        cases chosenFor_of_buildSource hsource
    | _ => cases h'
  | select name isStar columns where_ =>
    have hfound : catalogNodeFindTable (s.page 0) name = .ok (some n) := hfind
    have htable := findTable_openTable hfound n
    obtain ⟨source, hsource, rfl⟩ := buildPlan_cases htable h
    have hchosen := chosenFor_of_buildSource hsource
    cases tree' with
    | select name' isStar' columns' where' =>
      obtain ⟨source', hsource', hproject⟩ := buildPlan_cases (findTable_openTable hfind' n) h'
      have hchosen' := chosenFor_of_buildSource hsource'
      obtain ⟨rfl, rfl⟩ := hchosen.project_inj hchosen' hproject
      have hother : lowercase name = lowercase name' := hname
      have hsame : execute s (.select name isStar columns where_) =
          execute s (.select name isStar' columns where') := by
        rw [execute_select hfound, execute_select hfound, selectCommand_eq htable hsource,
          selectCommand_eq htable hsource', hchosen.validateColumns_eq hchosen' hpk,
          hchosen.isSome_eq hchosen']
      rw [hsame]
      exact execute_alike (by rw [AstNode.lowered, AstNode.lowered, hother]) s
    | insert name' values' =>
      unfold buildPlan at h'
      obtain ⟨_, _, h'⟩ := bind_eq_ok h'
      replace h' := Except.ok.inj h'
      unfold project at h'
      split at h'
      · cases h'
      · subst h'
        cases hchosen
    | _ =>
      unfold buildPlan at h'
      obtain ⟨_, _, h'⟩ := bind_eq_ok h'
      cases h'
  | _ =>
    unfold buildPlan at h
    obtain ⟨_, _, h⟩ := bind_eq_ok h
    cases h

/-! ## The table of a plan -/

/-- The root page of the table that a plan is about. -/
def PlanNode.rootPageNum : PlanNode → ℕ
  | .tableScan root _ | .pkLookup root _ _ | .insert root _ => root
  | .filter child _ | .projection child _ => child.rootPageNum

theorem rootPageNum_of_buildPlan (h : buildPlan s tree table = .ok plan) :
    plan.rootPageNum = table.rootPageNum := by
  unfold buildPlan at h
  obtain ⟨n, -, h⟩ := bind_eq_ok h
  cases tree with
  | insert name values =>
    cases h
    rfl
  | select name isStar columns where_ =>
    obtain ⟨source, hsource, h⟩ := bind_eq_ok h
    cases h
    have hroot : source.rootPageNum = table.rootPageNum := by
      cases chosenFor_of_buildSource hsource <;> rfl
    split <;> exact hroot
  | _ => cases h

/-- **Tables of a database with the same root page** are the same. -/
theorem Database.table_inj {ts : List TableInfo} (h : Database s ts)
    (hfind : catalogNodeFindTable (s.page 0) name = .ok (some n))
    (hfind' : catalogNodeFindTable (s.page 0) name' = .ok (some n'))
    (hroot : (openTable s n name).rootPageNum = (openTable s n' name').rootPageNum) : n = n' := by
  obtain ⟨x, hx, hholds⟩ := h.holds hfind
  obtain ⟨x', hx', hholds'⟩ := h.holds hfind'
  by_contra hne
  have hpage : ∀ y : TableInfo, y.tree.2.page ∈ y.tree.2.labels := fun y => y.tree.2.page_mem_labels
  refine h.disjoint n n' x x' hx hx' hne _ (hpage x) ?_
  have hsame : x.tree.2.page = x'.tree.2.page := by
    rw [← h.root n x hx, ← h.root n' x' hx']
    exact hroot
  rw [hsame]
  exact hpage x'

/-! ## What `.plan` shows -/

/-- What `.plan` shows for a statement: its plan, or that there is no table. -/
theorem planTree_cases {shown : List (List UInt8)} (h : planTree s tree = .ok (shown, s')) :
    (catalogNodeFindTable (s.page 0) tree.table = .ok none ∧ shown = [ascii "Table is not found"]) ∨
      ∃ n plan, catalogNodeFindTable (s.page 0) tree.table = .ok (some n) ∧
        buildPlan s tree (openTable s n tree.table) = .ok plan ∧ shown = planPrint plan := by
  unfold planTree at h
  split at h
  · next s₁ hget =>
    have hpage := page_pagerGetPage hget
    have hplan : ∀ n, buildPlan s₁ tree (openTable s₁ n tree.table) =
        buildPlan s tree (openTable s n tree.table) := by
      intro n
      unfold openTable buildPlan
      rw [hpage]
      cases tree with
      | select name isStar columns where_ =>
        have hsource : ∀ m root rowSize, buildSource s₁ m root rowSize where_ =
            buildSource s m root rowSize where_ := by
          intro m root rowSize
          unfold buildSource
          rw [hpage]
        simp only [hsource]
      | _ => rfl
    rw [hpage] at h
    obtain ⟨found, hfind, h⟩ := bind_eq_ok h
    cases found with
    | none =>
      cases h
      exact Or.inl ⟨hfind, rfl⟩
    | some n =>
      obtain ⟨plan, hbuild, h⟩ := bind_eq_ok h
      cases h
      exact Or.inr ⟨n, plan, hfind, hplan n ▸ hbuild, rfl⟩
  · cases h

/-- The statements that `.plan` shows. -/
def AstNode.Planned : AstNode → Prop
  | .insert _ _ | .select _ _ _ _ => True
  | .createTable _ _ | .updateTable _ _ _ _ | .deleteTable _ _ => False

theorem planned_of_parsePlanned (h : parsePlanned (parserInit sql) = some (.ok (tree, p))) :
    tree.Planned := by
  have hspelled : ∀ type, (parserInit sql).current.type = type → type ≠ .tokenCreate →
      type ≠ .tokenUpdate → type ≠ .tokenDelete →
      (∃ ts, Advances (parserInit sql) ts p ∧ tree.Spelled @Scattered p.current ts) →
        tree.Planned := by
    rintro type htype hcreate hupdate hdelete ⟨ts, hadv, hspelled⟩
    cases hspelled with
    | star | select | insert => trivial
    | createTable hfirst => exact absurd (htype.symm.trans (hadv.head ▸ hfirst)) hcreate
    | updateTable hfirst => exact absurd (htype.symm.trans (hadv.head ▸ hfirst)) hupdate
    | deleteTable hfirst => exact absurd (htype.symm.trans (hadv.head ▸ hfirst)) hdelete
  unfold parsePlanned at h
  split at h
  · next htype =>
    exact hspelled _ htype (by decide) (by decide) (by decide)
      (parseSelectStatement_spelled (Option.some.inj h))
  · next htype =>
    exact hspelled _ htype (by decide) (by decide) (by decide)
      (parseInsertStatement_spelled (Option.some.inj h))
  · cases h

/-- Such a statement about a table that is not there does nothing but say so. -/
theorem AstNode.Planned.execute_absent (h : tree.Planned)
    (hfind : catalogNodeFindTable (s.page 0) tree.table = .ok none) :
    execute s tree = .ok (⟨.commandSuccess, [ascii "Table is not found"]⟩, s) := by
  unfold execute
  rw [hfind]
  cases tree with
  | insert | select => rfl
  | createTable | updateTable | deleteTable => exact absurd h id

/-- No plan begins like the message about a missing table. -/
theorem printed_planPrint_ne (h : plan.Printable) :
    printed (planPrint plan) ≠ printed [ascii "Table is not found"] := by
  intro heq
  have hlines := printed_injective (noBreak_planPrintNode h 0)
    (noBreak_cons (by decide) noBreak_nil) heq
  have hkind : ∀ text : List UInt8, ascii "PlanNode" ++ text ≠ ascii "Table is not found" := by
    intro text htext
    have hfirst := congrArg List.head? htext
    revert hfirst
    simp [ascii]
  cases plan <;> exact hkind _ ((List.append_assoc _ _ _).symm.trans (List.cons.inj hlines).1)

/-- **What `.plan` shows decides what the statement does**: in a reachable database, two lines for
which it prints the same do the same, or are refused with messages that differ at most in the case
of the names. -/
theorem plan_faithful (hreach : Reachable Finishes s) (hline : 10 ∉ sql) (hline' : 10 ∉ sql')
    (h : parsePlanned (parserInit sql) = some (.ok (tree, p)))
    (h' : parsePlanned (parserInit sql') = some (.ok (tree', p')))
    {shown shown' : List (List UInt8)}
    {s₁ s₂ : Pager} (hshow : planCommand s sql = .ok (shown, s₁))
    (hshow' : planCommand s sql' = .ok (shown', s₂)) (heq : printed shown = printed shown') :
    Alike s (processCommand s sql) (processCommand s sql') := by
  have hprintable := printable_of_parsePlanned hline h
  have hprintable' := printable_of_parsePlanned hline' h'
  have hplanned := planned_of_parsePlanned h
  have hplanned' := planned_of_parsePlanned h'
  rw [planCommand, h] at hshow
  rw [planCommand, h'] at hshow'
  rw [processCommand, processCommand, parseStatement_of_parsePlanned h,
    parseStatement_of_parsePlanned h']
  show Alike s (execute s tree) (execute s tree')
  rcases planTree_cases hshow with ⟨hfind, rfl⟩ | ⟨n, plan, hfind, hbuild, rfl⟩
  · rcases planTree_cases hshow' with ⟨hfind', rfl⟩ | ⟨n', plan', hfind', hbuild', rfl⟩
    · rw [hplanned.execute_absent hfind, hplanned'.execute_absent hfind']
      exact Alike.refl _
    · exact absurd heq.symm (printed_planPrint_ne (printable_of_buildPlan hprintable' hbuild'))
  · have hplan := printable_of_buildPlan hprintable hbuild
    rcases planTree_cases hshow' with ⟨hfind', rfl⟩ | ⟨n', plan', hfind', hbuild', rfl⟩
    · exact absurd heq (printed_planPrint_ne hplan)
    · obtain rfl := (printed_planPrint hplan (printable_of_buildPlan hprintable' hbuild')).mp heq
      obtain ⟨ts, hdb⟩ := hreach.database
      -- the plan names the root page, and with it the table
      have hroot := (rootPageNum_of_buildPlan hbuild).symm.trans (rootPageNum_of_buildPlan hbuild')
      obtain rfl := hdb.table_inj hfind hfind' hroot
      obtain ⟨-, -, -, hfound, -⟩ := findFirst_eq_some hfind
      obtain ⟨-, -, -, hfound', -⟩ := findFirst_eq_some hfind'
      obtain ⟨x, -, hholds⟩ := hdb.holds hfind
      have hpk : catalogNodePrimaryKeyColumn (s.page 0) n <
          catalogNodeColumnCount (s.page 0) n := by
        rw [hholds.describes.primaryKey, hholds.describes.columnCount]
        exact x.schema.primaryKey_lt
      exact execute_of_plan (lowercase_eq_of_nameEquals hfound hfound') hpk hfind hbuild hbuild'

/-- Two ways to ask for all columns of a table with two rows. -/
theorem plan_faithful_notes : ∃ s, Reachable Finishes s ∧
    HasRow s (catalogNodeRootPage (s.page 0) 0) ∧
    Alike s (processCommand s (ascii "SELECT * FROM notes"))
      (processCommand s (ascii "SELECT FROM Notes")) := by
  obtain ⟨s, hreach, h, -⟩ := exists_two
  have hrow : HasRow s (openTable s 0 notesName).rootPageNum :=
    h.holds.hasRow_iff.mpr (List.cons_ne_nil _ _)
  obtain ⟨s₁, hget, -⟩ := pagerGetPage_of_lt h.database.sound h.database.pos
  have hpage := page_pagerGetPage hget
  have hshow : ∀ {sql name isStar p},
      parsePlanned (parserInit sql) = some (.ok (.select name isStar [] none, p)) →
      catalogNodeFindTable (s.page 0) name = .ok (some 0) →
      planCommand s sql = .ok (planPrint (.tableScan (catalogNodeRootPage (s.page 0) 0)
        (catalogNodeRowSize (s.page 0) 0)), s₁) := by
    intro sql name isStar p hparse hfind
    rw [planCommand, hparse]
    show planTree s _ = _
    rw [planTree, hget]
    dsimp only [AstNode.table]
    rw [hpage, hfind, ok_bind]
    dsimp only
    have hroot : (openTable s₁ 0 name).rootPageNum = catalogNodeRootPage (s.page 0) 0 := by
      rw [openTable, hpage]
    rw [buildPlan, findTable_openTable (hpage ▸ hfind) 0, hpage, hroot]
    rfl
  obtain ⟨p, hparse⟩ : ∃ p, parsePlanned (parserInit (ascii "SELECT * FROM notes")) =
      some (.ok (.select notesName true [] none, p)) := ⟨_, rfl⟩
  obtain ⟨p', hparse'⟩ : ∃ p, parsePlanned (parserInit (ascii "SELECT FROM Notes")) =
      some (.ok (.select (ascii "Notes") false [] none, p)) := ⟨_, rfl⟩
  have hfind' : catalogNodeFindTable (s.page 0) (ascii "Notes") = .ok (some 0) := by
    rw [← catalogNodeFindTable_lowercase]
    exact h.find
  exact ⟨s, hreach, hrow, plan_faithful hreach (by decide) (by decide) hparse hparse'
    (hshow hparse h.find)
    (hshow hparse' hfind') rfl⟩

end MiniDB
