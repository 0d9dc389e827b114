import MiniDB.Cursors.Scan

/-!
# The two ways to a row

A condition on the primary key is answered by a descent to the key, any other one by a filter over a
scan.

* `lookupRows`, `Holds.delivers_pkLookup`: the row that the descent delivers.
* `planRows`, `Delivers.planRows`, `planRows_project`: the rows of a plan.
* `buildSource_eq`, `buildPlan_eq`: the plan for a condition.
* `buildPlan_cases`: what a plan can be.
-/

namespace MiniDB

open BPlusTree Pager

variable {s s' : Pager} {table : Table} {n : ℕ} {σ : Schema} {t : PageTreeAny} {key : Int64}
  {column : List UInt8}

/-- The rows that are found for a key: one, or none. -/
def lookupRows (σ : Schema) (t : PageTreeAny) (key : Int64) : List Row :=
  ((t.2.lookup key).map fun bs => (⟨decodeValues σ.types bs⟩ : Row)).toList

theorem length_lookupRows (σ : Schema) (t : PageTreeAny) (key : Int64) :
    (lookupRows σ t key).length ≤ 1 := by
  unfold lookupRows
  cases t.2.lookup key <;> simp

theorem cursorNext_pkLookup {fuel : ℕ} (hfuel : 1 ≤ fuel) (root rowSize : ℕ) (key : Int64)
    (done : Bool) : cursorNext table fuel (.pkLookup root key rowSize done) s =
      pkLookupNext s table root key rowSize done := by
  obtain ⟨fuel, rfl⟩ : ∃ f, fuel = f + 1 := ⟨fuel - 1, by omega⟩
  rfl

/-- **What a lookup delivers.** -/
theorem Holds.delivers_pkLookup (h : Holds s table n σ t) (key : Int64) :
    Delivers table 1 (.pkLookup table.rootPageNum key σ.rowSize false) s (lookupRows σ t key) := by
  obtain ⟨s₁, hget, hf₁⟩ := pagerGetPage_of_lt h.sound h.root_lt
  obtain ⟨s₂, hdescent, hf₂⟩ := (h.fetched hf₁).descent key
  have hf := hf₁.trans hf₂
  have h₂ := h.fetched hf
  obtain ⟨e, hleaf⟩ := h₂.leafPage key
  have hsorted : Tree.Sorted (t.2.leafFor key).cells := h.represents.good.ordered.leafFor
  rw [← hleaf.cells] at hsorted
  have hlookup := lookup_leafCells hsorted key
  rw [hleaf.cells] at hlookup
  have hlast : Delivers table 1 (.pkLookup table.rootPageNum key σ.rowSize true) s₂ [] :=
    .done (fun fuel hfuel => (cursorNext_pkLookup hfuel ..).trans rfl) (Fetched.refl hf.sound)
  have hcall : pkLookupNext s table table.rootPageNum key σ.rowSize false =
      .ok (((t.2.leafFor key).cells.lookup key).map fun bs => (⟨decodeValues σ.types bs⟩ : Row),
        .pkLookup table.rootPageNum key σ.rowSize true, s₂) := by
    unfold pkLookupNext
    simp only [Bool.false_eq_true, if_false, hget, hdescent, bind, Except.bind]
    by_cases hfound : FoundAt (s₂.page (t.2.leafFor key).page) key σ.rowSize
    · rw [hlookup.trans (if_pos hfound), h₂.reads.deserializeRow,
        if_neg (not_or_intro (not_le.mpr hfound.1) (not_not.mpr hfound.2))]
      rfl
    · rw [hlookup.trans (if_neg hfound), if_pos ((not_and_or.mp hfound).imp_left not_lt.mp)]
      rfl
  unfold lookupRows Tree.lookup
  cases hrow : (t.2.leafFor key).cells.lookup key with
  | none =>
    rw [hrow] at hcall
    exact .done (fun fuel hfuel => (cursorNext_pkLookup hfuel ..).trans hcall) hf
  | some bs =>
    rw [hrow] at hcall
    exact .next (fun fuel hfuel => (cursorNext_pkLookup hfuel ..).trans hcall) hf hlast

/-- What draining a lookup gives. -/
theorem Holds.drain_pkLookup (h : Holds s table n σ t) (key : Int64) :
    ∃ s', drain table scanFuel (.pkLookup table.rootPageNum key σ.rowSize false) s =
      .ok (lookupRows σ t key, s') ∧ Fetched s s' := by
  refine (h.delivers_pkLookup key).drain (by decide) ?_
  exact lt_of_le_of_lt (length_lookupRows σ t key) (by decide)

/-! ## Plans -/

/-- The rows that a plan produces. -/
def planRows (s : Pager) (table : Table) (plan : PlanNode) : Exec (List Row) := do
  let cursor ← buildCursor plan
  let (rows, _) ← drain table scanFuel cursor s
  return rows

/-- The columns of a `SELECT` over the source of its rows, as `build_plan` puts them there. -/
def project (columns : List Expr) (source : PlanNode) : PlanNode :=
  if columns.length > 0 then .projection source columns else source

/-- The plan that filters a scan of the table. -/
def filterPlan (table : Table) (rowSize : ℕ) (columns : List Expr) (condition : Expr) : PlanNode :=
  project columns (.filter (.tableScan table.rootPageNum rowSize) condition)

/-- The rows are those of a whole walk of the cursor. -/
theorem planRows_eq {plan : PlanNode} {cursor : Cursor} (hbuild : buildCursor plan = .ok cursor) :
    planRows s table plan = (drain table scanFuel cursor s).map Prod.fst := by
  rw [planRows, hbuild]
  show (drain table scanFuel cursor s >>= _) = _
  cases drain table scanFuel cursor s <;> rfl

/-- So are those of a projection. -/
theorem planRows_projection {source : PlanNode} {cursor : Cursor}
    (hbuild : buildCursor source = .ok cursor) (columns : List Expr) :
    planRows s table (.projection source columns) =
      (drain table scanFuel (.projection cursor columns) s).map Prod.fst :=
  planRows_eq (by rw [buildCursor, hbuild]; rfl)

/-- The rows of the plan over a source that delivers `rows`. -/
theorem Delivers.planRows {k : ℕ} {source : PlanNode} {cursor : Cursor} {rows : List Row}
    (h : Delivers table k cursor s rows) (hbuild : buildCursor source = .ok cursor)
    (hk : k < scanFuel) (hlen : rows.length < scanFuel)
    (hfind : findTable (s.page 0) table.tableName = .ok n) (columns : List Expr) :
    MiniDB.planRows s table (project columns source) =
      if columns.length > 0 then
        rows.mapM fun row => (projectRow (s.page 0) n row columns).map Row.mk
      else .ok rows := by
  unfold project
  by_cases hcols : columns.length > 0
  · rw [if_pos hcols, if_pos hcols, planRows_projection hbuild]
    exact h.drain_projection hk hfind hlen
  · obtain ⟨s', hdrain, -⟩ := h.drain hk.le hlen
    rw [if_neg hcols, if_neg hcols, planRows_eq hbuild, hdrain]
    rfl

/-- **Sources that deliver the same rows** make plans with the same rows. -/
theorem planRows_project {k k' : ℕ} {source source' : PlanNode} {cursor cursor' : Cursor}
    {rows : List Row} (hsource : buildCursor source = .ok cursor)
    (hsource' : buildCursor source' = .ok cursor') (h : Delivers table k cursor s rows)
    (h' : Delivers table k' cursor' s rows) (hk : k < scanFuel) (hk' : k' < scanFuel)
    (hlen : rows.length < scanFuel) (hfind : findTable (s.page 0) table.tableName = .ok n)
    (columns : List Expr) :
    planRows s table (project columns source) = planRows s table (project columns source') := by
  rw [h.planRows hsource hk hlen hfind, h'.planRows hsource' hk' hlen hfind]

/-- The plan for a source. -/
theorem buildPlan_eq (hfind : findTable (s.page 0) table.tableName = .ok n)
    {where_ : Option Expr} {source : PlanNode}
    (hsource : buildSource s n table.rootPageNum (catalogNodeRowSize (s.page 0) n) where_ =
      .ok source) (name : List UInt8) (isStar : Bool) (columns : List Expr) :
    buildPlan s (.select name isStar columns where_) table = .ok (project columns source) := by
  unfold buildPlan project
  rw [hfind]
  show (buildSource s n table.rootPageNum (catalogNodeRowSize (s.page 0) n) where_ >>= _) = _
  rw [hsource]
  rfl

/-- The source for a condition. -/
theorem buildSource_eq {b : Bool} (hpk : isPrimaryKey (s.page 0) n column = .ok b) (value : Expr)
    (root rowSize : ℕ) :
    buildSource s n root rowSize (some (.equals (.column column) value)) =
      if b then value.asLiteralInt.map fun key => .pkLookup root key rowSize
      else .ok (.filter (.tableScan root rowSize) (.equals (.column column) value)) := by
  unfold buildSource
  show (isPrimaryKey (s.page 0) n column >>= _) = _
  rw [hpk]
  cases b with
  | false => rfl
  | true =>
    show (value.asLiteralInt >>= _) = _
    cases value.asLiteralInt <;> rfl

/-- A plan is a source under the columns of the statement. -/
theorem buildPlan_cases (hfind : findTable (s.page 0) table.tableName = .ok n)
    {name : List UInt8} {isStar : Bool} {columns : List Expr} {where_ : Option Expr}
    {plan : PlanNode} (hrun : buildPlan s (.select name isStar columns where_) table = .ok plan) :
    ∃ source, buildSource s n table.rootPageNum (catalogNodeRowSize (s.page 0) n) where_ =
      .ok source ∧ plan = project columns source := by
  unfold buildPlan at hrun
  rw [hfind] at hrun
  obtain ⟨_, ⟨⟩, hrun⟩ := bind_eq_ok hrun
  obtain ⟨source, hsource, hrun⟩ := bind_eq_ok hrun
  exact ⟨source, hsource, (Except.ok.inj hrun).symm⟩

end MiniDB
