import MiniDB.Cursors.Typing

/-!
# The relational meaning of a plan

A plan is read as an expression over lists of rows: a scan and a lookup stand for the rows they
find, a filter for those that satisfy its condition, a projection for the values of the columns it
names.  The cursors compute that, one row at a call.

* `restrict`, `Projects`, `PlanNode.Means`: the meaning.
* `Breaks`: the rows of all calls up to one that goes wrong.
* `Yields`, `Delivers.yields_filter`: **a filter answers with the rows that satisfy its condition**.
* `validateColumns_found`, `exists_projectRow`: **what is checked is found**, so that a projection
  leaves no slot as it was.
* `Holds.planRows_means`: **the rows of every plan are what it means**.
-/

namespace MiniDB

open BPlusTree Pager

/-! ## The meaning -/

/-- The rows that satisfy the condition, in their order, unless a test goes wrong. -/
def restrict (catalog : Page) (n : ℕ) (condition : Expr) : List Row → Exec (List Row)
  | [] => .ok []
  | row :: rows => do
    let keep ← rowMatchesWhere (some condition) row catalog n
    let kept ← restrict catalog n condition rows
    return if keep then row :: kept else kept

/-- The value of the row in the column that the expression names. -/
def InColumn (catalog : Page) (n : ℕ) (row : Row) (column : Expr) (v : Value) : Prop :=
  ∃ name j, column = .column name ∧ catalogNodeFindColumn catalog n name = .ok (some j) ∧
    row.values[j]? = some v

/-- The other row has one slot for each column of the list, in its order, and in each the value of
the row in that column. -/
def Projects (catalog : Page) (n : ℕ) (columns : List Expr) (row out : Row) : Prop :=
  List.Forall₂ (InColumn catalog n row) columns out.values

/-- **What a plan means** on a table whose tree is `t`: the rows, or the fault of a test. -/
def PlanNode.Means (σ : Schema) (t : PageTreeAny) (s : Pager) (n : ℕ) :
    PlanNode → Exec (List Row) → Prop
  | .tableScan _ _, out => out = .ok (scanRows σ s.page t.2.leaves)
  | .pkLookup _ key _, out => out = .ok (lookupRows σ t key)
  | .filter child condition, out => ∃ rows, child.Means σ t s n rows ∧
      out = rows >>= restrict (s.page 0) n condition
  | .projection child columns, out => ∃ rows, child.Means σ t s n rows ∧
      match rows with
      | .ok rows => ∃ outs, out = .ok outs ∧ List.Forall₂ (Projects (s.page 0) n columns) rows outs
      | .error f => out = .error f
  | .insert _ _, _ => False

variable {s s' : Pager} {table : Table} {catalog : Page} {n i k k' : ℕ} {σ : Schema}
  {t : PageTreeAny} {name : List UInt8} {where_ : Option Expr} {columns : List Expr}
  {condition column : Expr} {row : Row} {rows all : List Row} {cursor child : Cursor}
  {out : Exec (List Row)} {f : Fault} {plan source : PlanNode}

/-- Whether the row satisfies the condition, where the test does not go wrong. -/
def passes (catalog : Page) (n : ℕ) (condition : Expr) (row : Row) : Bool :=
  match rowMatchesWhere (some condition) row catalog n with
  | .ok b => b
  | .error _ => false

/-- When no test goes wrong, it is the plain filter of the list. -/
theorem restrict_eq_ok (h : restrict catalog n condition rows = .ok all) :
    (∀ row ∈ rows, rowMatchesWhere (some condition) row catalog n =
      .ok (passes catalog n condition row)) ∧ all = rows.filter (passes catalog n condition) := by
  induction rows generalizing all with
  | nil =>
    cases h
    exact ⟨fun _ hrow => absurd hrow List.not_mem_nil, rfl⟩
  | cons row rows ih =>
    rw [restrict] at h
    obtain ⟨keep, htest, h⟩ := bind_eq_ok h
    obtain ⟨kept, hrest, h⟩ := bind_eq_ok h
    obtain ⟨hall, rfl⟩ := ih hrest
    have hpass : passes catalog n condition row = keep := by rw [passes, htest]
    refine ⟨?_, ?_⟩
    · intro row' hrow
      rcases List.mem_cons.mp hrow with rfl | hrow
      · rw [htest, hpass]
      · exact hall row' hrow
    · cases h
      rw [List.filter_cons, hpass]

/-! ## Calls that go wrong -/

/-- One call after the other, from the state `s` on, the cursor delivers the rows, and then a call
goes wrong. -/
inductive Breaks (table : Table) (k : ℕ) (f : Fault) : Cursor → Pager → List Row → Prop
  | now {cursor : Cursor} {s : Pager} :
      (∀ fuel, k ≤ fuel → cursorNext table fuel cursor s = .error f) → Breaks table k f cursor s []
  | next {cursor cursor' : Cursor} {s s' : Pager} {row : Row} {rows : List Row} :
      (∀ fuel, k ≤ fuel → cursorNext table fuel cursor s = .ok (some row, cursor', s')) →
      Fetched s s' → Breaks table k f cursor' s' rows → Breaks table k f cursor s (row :: rows)

theorem Breaks.mono (h : Breaks table k f cursor s rows) (hk : k ≤ k') :
    Breaks table k' f cursor s rows := by
  induction h with
  | now hnext => exact .now fun fuel hfuel => hnext fuel (hk.trans hfuel)
  | next hnext hf _ ih => exact .next (fun fuel hfuel => hnext fuel (hk.trans hfuel)) hf ih

/-- A cursor whose calls come down to those of another one. -/
theorem Breaks.of_calls {cursor' : Cursor} (h : Breaks table k f cursor' s' rows)
    (hf : Fetched s s') (hk : k ≤ k') (hcalls : ∀ fuel, k' ≤ fuel →
      ∃ m, k ≤ m ∧ cursorNext table fuel cursor s = cursorNext table m cursor' s') :
    Breaks table k' f cursor s rows := by
  cases h with
  | now hnow =>
    refine .now fun fuel hfuel => ?_
    obtain ⟨m, hle, heq⟩ := hcalls fuel hfuel
    rw [heq, hnow m hle]
  | @next _ cursor'' _ s'' row _ hnext hf' htail =>
    have hcall : ∀ fuel, k' ≤ fuel →
        cursorNext table fuel cursor s = .ok (some row, cursor'', s'') := by
      intro fuel hfuel
      obtain ⟨m, hle, heq⟩ := hcalls fuel hfuel
      rw [heq, hnext m hle]
    exact .next hcall (hf.trans hf') (htail.mono hk)

/-- Draining the cursor goes wrong. -/
theorem Breaks.drain (h : Breaks table k f cursor s rows) (hk : k ≤ scanFuel) {fuel : ℕ}
    (hfuel : rows.length < fuel) : MiniDB.drain table fuel cursor s = .error f := by
  induction h generalizing fuel with
  | @now cursor s hnext =>
    obtain ⟨fuel, rfl⟩ : ∃ m, fuel = m + 1 := ⟨fuel - 1, by omega⟩
    rw [MiniDB.drain, hnext scanFuel hk]
    rfl
  | @next cursor cursor' s s₁ row rows hnext hf _ ih =>
    obtain ⟨fuel, rfl⟩ : ∃ m, fuel = m + 1 := ⟨fuel - 1, by omega⟩
    rw [MiniDB.drain, hnext scanFuel hk]
    show (MiniDB.drain table fuel cursor' s₁ >>= _) = _
    rw [ih (Nat.lt_of_succ_lt_succ hfuel)]
    rfl

/-- A projection goes wrong with its child. -/
theorem Breaks.projection (h : Breaks table k f child s rows)
    (hfind : findTable (s.page 0) table.tableName = .ok n)
    (hproject : ∀ row ∈ rows, ∃ vs, projectRow (s.page 0) n row columns = .ok vs) :
    ∃ outs, outs.length = rows.length ∧
      Breaks table (k + 1) f (.projection child columns) s outs := by
  induction h with
  | @now cursor s hnext =>
    refine ⟨[], rfl, .now fun fuel hfuel => ?_⟩
    obtain ⟨fuel, rfl⟩ : ∃ m, fuel = m + 1 := ⟨fuel - 1, by omega⟩
    rw [cursorNext, hnext fuel (by omega)]
    rfl
  | @next cursor cursor' s s₁ row rows hnext hf _ ih =>
    obtain ⟨outs, hlen, hrest⟩ := ih (by rw [hf.page]; exact hfind) fun row' hrow => by
      rw [hf.page]
      exact hproject row' (List.mem_cons_of_mem _ hrow)
    obtain ⟨vs, hvs⟩ := hproject row List.mem_cons_self
    refine ⟨⟨vs⟩ :: outs, congrArg Nat.succ hlen, .next (fun fuel hfuel => ?_) hf hrest⟩
    obtain ⟨fuel, rfl⟩ : ∃ m, fuel = m + 1 := ⟨fuel - 1, by omega⟩
    rw [cursorNext, hnext fuel (by omega)]
    show (findTable (s₁.page 0) table.tableName >>= _) = _
    rw [hf.page, hfind]
    show (projectRow (s.page 0) n row columns >>= _) = _
    rw [hvs]
    rfl

/-! ## The filter -/

/-- The calls of the cursor, one after the other, answer with these rows, which are some of the rows
`all`, or go wrong behind some of them. -/
def Yields (table : Table) (k : ℕ) (cursor : Cursor) (s : Pager) (all : List Row) :
    Exec (List Row) → Prop
  | .ok rows => Delivers table k cursor s rows ∧ rows.Sublist all
  | .error f => ∃ rows, Breaks table k f cursor s rows ∧ rows.Sublist all

/-- A filter goes wrong at the first row whose test does. -/
theorem Delivers.breaks_filter (h : Delivers table k child s rows)
    (hfind : findTable (s.page 0) table.tableName = .ok n)
    (htest : restrict (s.page 0) n condition rows = .error f) :
    ∃ kept, Breaks table (k + rows.length + 1) f (.filter child condition) s kept ∧
      kept.Sublist rows := by
  induction h with
  | done => cases htest
  | @next cursor cursor' s s₁ row rows hnext hf _ ih =>
    have hle : k + rows.length + 1 ≤ k + (row :: rows).length + 1 := Nat.le_succ _
    rw [restrict] at htest
    rcases bind_eq_error htest with hrow | ⟨keep, hrow, htest⟩
    · -- the test of this row goes wrong
      refine ⟨[], .now fun fuel hfuel => ?_, List.nil_sublist _⟩
      obtain ⟨fuel, rfl⟩ : ∃ m, fuel = m + 1 := ⟨fuel - 1, by omega⟩
      rw [cursorNext_filter condition hfind (hnext fuel (by omega)) hf, hrow]
      rfl
    · have hrest : restrict (s.page 0) n condition rows = .error f := by
        rcases bind_eq_error htest with hrest | ⟨kept, -, hkept⟩
        · exact hrest
        · cases hkept
      rw [← hf.page] at hrest
      obtain ⟨kept, hkept, hsub⟩ := ih (by rw [hf.page]; exact hfind) hrest
      cases keep with
      | true =>
        refine ⟨row :: kept, .next (fun fuel hfuel => ?_) hf (hkept.mono hle), hsub.cons_cons row⟩
        exact cursorNext_filter_keep condition hfind hnext hf hrow fuel (by omega)
      | false =>
        exact ⟨kept, hkept.of_calls hf hle
          (cursorNext_filter_skip condition hfind hnext hf hrow (by omega)), hsub.cons row⟩

/-- **A filter answers** with the rows that satisfy its condition. -/
theorem Delivers.yields_filter (h : Delivers table k child s rows)
    (hfind : findTable (s.page 0) table.tableName = .ok n) (condition : Expr) :
    Yields table (k + rows.length + 1) (.filter child condition) s rows
      (restrict (s.page 0) n condition rows) := by
  cases hrows : restrict (s.page 0) n condition rows with
  | ok kept =>
    obtain ⟨htest, rfl⟩ := restrict_eq_ok hrows
    exact ⟨h.filter condition hfind htest, List.filter_sublist⟩
  | error f => exact h.breaks_filter hfind hrows

/-! ## The projection -/

/-- A column that was checked has a name that is found. -/
theorem columnExists_found (h : columnExists catalog n column = .ok true) :
    ∃ name j, column = .column name ∧ catalogNodeFindColumn catalog n name = .ok (some j) := by
  obtain ⟨found, hfind, h⟩ := bind_eq_ok h
  cases found with
  | none => cases h
  | some j =>
    obtain ⟨l₁, l₂, -, htest, -⟩ := findFirst_eq_some hfind
    obtain ⟨name, hname, -⟩ := bind_eq_ok htest
    cases column with
    | column name' => exact ⟨name', j, rfl, hfind⟩
    | _ => cases hname

theorem missingColumns_found (h : missingColumns catalog table n columns = .ok none) :
    ∀ column ∈ columns, ∃ name j, column = .column name ∧
      catalogNodeFindColumn catalog n name = .ok (some j) := by
  induction columns with
  | nil => exact fun _ hc => absurd hc List.not_mem_nil
  | cons column columns ih =>
    rw [missingColumns] at h
    obtain ⟨valid, hcolumn, h⟩ := bind_eq_ok h
    cases valid with
    | false =>
      obtain ⟨text, -, h⟩ := bind_eq_ok h
      cases h
    | true =>
      intro other hother
      rcases List.mem_cons.mp hother with rfl | hother
      · exact columnExists_found hcolumn
      · exact ih h other hother

/-- **What is checked is found.** -/
theorem validateColumns_found (h : validateColumns s table n columns where_ = .ok none) :
    ∀ column ∈ columns, ∃ name j, column = .column name ∧
      catalogNodeFindColumn (s.page 0) n name = .ok (some j) := by
  refine missingColumns_found (?_ : missingColumns (s.page 0) table n columns = .ok none)
  unfold validateColumns at h
  cases where_ with
  | none => exact h
  | some condition =>
    obtain ⟨⟨left, right⟩, -, h⟩ := bind_eq_ok h
    obtain ⟨valid, -, h⟩ := bind_eq_ok h
    cases valid with
    | false =>
      obtain ⟨text, -, h⟩ := bind_eq_ok h
      cases h
    | true => exact h

/-- The loop of `projection_next` takes the value of the column that `catalog_node_find_column`
finds. -/
theorem projectColumn_found {vs : List Value} {v : Value}
    (hfound : nameEquals name (columnName catalog n i) = .ok true)
    (hbefore : ∀ j < i, nameEquals name (columnName catalog n j) = .ok false) (hk : k ≤ i)
    (hv : vs[i - k]? = some v) : projectColumn catalog n (.column name) k vs = .ok v := by
  induction vs generalizing k with
  | nil => cases hv
  | cons w vs ih =>
    have hname : columnNameIs (.column name) (columnName catalog n k) =
        nameEquals name (columnName catalog n k) := rfl
    rw [projectColumn, hname]
    rcases Nat.lt_or_eq_of_le hk with hlt | rfl
    · rw [hbefore k hlt]
      show projectColumn _ _ _ _ _ = _
      refine ih hlt ?_
      rwa [show i - k = (i - (k + 1)) + 1 by omega, List.getElem?_cons_succ] at hv
    · rw [Nat.sub_self, List.getElem?_cons_zero, Option.some_inj] at hv
      rw [hfound, hv]
      rfl

/-- **Every slot of a projected row gets its value.** -/
theorem exists_projectRow
    (hfound : ∀ column ∈ columns, ∃ name j, column = .column name ∧
      catalogNodeFindColumn catalog n name = .ok (some j))
    (hlen : row.values.length = catalogNodeColumnCount catalog n) :
    ∃ vs, projectRow catalog n row columns = .ok vs ∧ Projects catalog n columns row ⟨vs⟩ := by
  induction columns with
  | nil => exact ⟨[], rfl, .nil⟩
  | cons column columns ih =>
    obtain ⟨vs, hvs, hall⟩ := ih fun other hother => hfound other (List.mem_cons_of_mem _ hother)
    obtain ⟨name, j, rfl, hj⟩ := hfound column List.mem_cons_self
    obtain ⟨htest, hbefore⟩ := findColumn_tests hj
    have hlt : j < row.values.length := hlen ▸ findColumn_lt hj
    have hvalue := projectColumn_found htest hbefore (Nat.zero_le j)
      (show row.values[j - 0]? = some row.values[j] from List.getElem?_eq_getElem hlt)
    refine ⟨row.values[j] :: vs, ?_, .cons ⟨name, j, rfl, hj, List.getElem?_eq_getElem hlt⟩ hall⟩
    rw [projectRow, hvalue, hvs]
    rfl

/-- A loop whose rounds all succeed. -/
theorem mapM_forall₂ {α β : Type} {g : α → Exec β} {R : α → β → Prop} {xs : List α}
    (h : ∀ x ∈ xs, ∃ y, g x = .ok y ∧ R x y) : ∃ ys, xs.mapM g = .ok ys ∧ List.Forall₂ R xs ys := by
  induction xs with
  | nil => exact ⟨[], rfl, .nil⟩
  | cons x xs ih =>
    obtain ⟨y, hy, hR⟩ := h x List.mem_cons_self
    obtain ⟨ys, hys, hall⟩ := ih fun x' hx => h x' (List.mem_cons_of_mem _ hx)
    refine ⟨y :: ys, ?_, .cons hR hall⟩
    rw [List.mapM_cons, hy, hys]
    rfl

/-- The rows of the plan over a source that goes wrong. -/
theorem Breaks.planRows (h : Breaks table k f cursor s rows)
    (hbuild : buildCursor source = .ok cursor) (hk : k < scanFuel) (hlen : rows.length < scanFuel)
    (hfind : findTable (s.page 0) table.tableName = .ok n)
    (hproject : ∀ row ∈ rows, ∃ vs, projectRow (s.page 0) n row columns = .ok vs) :
    MiniDB.planRows s table (project columns source) = .error f := by
  unfold project
  by_cases hcols : columns.length > 0
  · obtain ⟨outs, hlen', hbreaks⟩ := h.projection hfind hproject
    rw [if_pos hcols, planRows_projection hbuild, hbreaks.drain hk (hlen' ▸ hlen)]
    rfl
  · rw [if_neg hcols, planRows_eq hbuild, h.drain hk.le hlen]
    rfl

/-! ## Plans -/

/-- **A source that answers with what it means** makes a plan whose rows are what it means. -/
theorem Yields.means (h : Yields table k cursor s all out)
    (hbuild : buildCursor source = .ok cursor) (hmeans : source.Means σ t s n out)
    (hk : k < scanFuel) (hlen : all.length < scanFuel)
    (hfind : findTable (s.page 0) table.tableName = .ok n)
    (hproject : ∀ row ∈ all, ∃ vs, projectRow (s.page 0) n row columns = .ok vs ∧
      Projects (s.page 0) n columns row ⟨vs⟩) :
    (project columns source).Means σ t s n (planRows s table (project columns source)) := by
  cases out with
  | error f =>
    obtain ⟨rows, hbreaks, hsub⟩ := h
    have hrows : ∀ row ∈ rows, ∃ vs, projectRow (s.page 0) n row columns = .ok vs := by
      intro row hrow
      obtain ⟨vs, hvs, -⟩ := hproject row (hsub.subset hrow)
      exact ⟨vs, hvs⟩
    rw [hbreaks.planRows hbuild hk (hsub.length_le.trans_lt hlen) hfind hrows]
    unfold project
    split
    · exact ⟨_, hmeans, rfl⟩
    · exact hmeans
  | ok rows =>
    obtain ⟨hdelivers, hsub⟩ := h
    rw [hdelivers.planRows hbuild hk (hsub.length_le.trans_lt hlen) hfind columns]
    unfold project
    split
    · have hrows : ∀ row ∈ rows, ∃ o, (projectRow (s.page 0) n row columns).map Row.mk = .ok o ∧
          Projects (s.page 0) n columns row o := by
        intro row hrow
        obtain ⟨vs, hvs, hvalues⟩ := hproject row (hsub.subset hrow)
        exact ⟨⟨vs⟩, by rw [hvs]; rfl, hvalues⟩
      exact ⟨_, hmeans, mapM_forall₂ hrows⟩
    · exact hmeans

/-- The rows that a scan or a lookup finds have a value for each column. -/
theorem Holds.length_values {bs : List UInt8} (h : Holds s table n σ t)
    (hrow : row = ⟨decodeValues σ.types bs⟩) :
    row.values.length = catalogNodeColumnCount (s.page 0) n := by
  rw [hrow, length_decodeValues, h.describes.columnCount]

/-- **Every source answers with what it means.** -/
theorem Holds.yields_source (h : Holds s table n σ t)
    (hsource : buildSource s n table.rootPageNum σ.rowSize where_ = .ok source) :
    ∃ cursor k all out, buildCursor source = .ok cursor ∧ source.Means σ t s n out ∧
      Yields table k cursor s all out ∧ k < scanFuel ∧ all.length < scanFuel ∧
      ∀ row ∈ all, row.values.length = catalogNodeColumnCount (s.page 0) n := by
  obtain ⟨hscan, hlen⟩ := h.delivers_root
  have hscanned : ∀ row ∈ scanRows σ s.page t.2.leaves,
      row.values.length = catalogNodeColumnCount (s.page 0) n := by
    intro row hrow
    obtain ⟨bs, hbs⟩ := mem_scanRows hrow
    exact h.length_values hbs
  rcases buildSource_cases hsource with rfl | ⟨key, rfl⟩ | ⟨condition, rfl⟩
  · exact ⟨_, 1, _, _, rfl, rfl, ⟨hscan, List.Sublist.refl _⟩, by decide, by omega, hscanned⟩
  · refine ⟨_, 1, _, _, rfl, rfl, ⟨h.delivers_pkLookup key, List.Sublist.refl _⟩, by decide,
      lt_of_le_of_lt (length_lookupRows σ t key) (by decide), ?_⟩
    intro row hrow
    obtain ⟨bs, -, hbs⟩ := Option.map_eq_some_iff.mp (Option.mem_toList.mp hrow)
    exact h.length_values hbs.symm
  · exact ⟨_, _, _, _, rfl, ⟨_, rfl, rfl⟩, hscan.yields_filter h.find condition, by omega,
      by omega, hscanned⟩

/-- **The rows of a plan are what it means**, for every `SELECT` whose columns were checked. -/
theorem Holds.planRows_means (h : Holds s table n σ t)
    (hvalid : validateColumns s table n columns where_ = .ok none) {isStar : Bool}
    (hplan : buildPlan s (.select name isStar columns where_) table = .ok plan) :
    plan.Means σ t s n (planRows s table plan) := by
  obtain ⟨source, hsource, rfl⟩ := buildPlan_cases h.find hplan
  rw [h.describes.rowSize] at hsource
  obtain ⟨cursor, k, all, out, hbuild, hmeans, hyields, hk, hlen, hrows⟩ :=
    h.yields_source hsource
  refine hyields.means hbuild hmeans hk hlen h.find ?_
  exact fun row hrow => exists_projectRow (validateColumns_found hvalid) (hrows row hrow)

end MiniDB
