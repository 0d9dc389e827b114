import MiniDB.Model.Command
import MiniDB.Statements.Walk

/-!
# A `SELECT` only reads

* `Chain.next`: the leaf that a leaf leads to.
* `CursorOf`: the cursors over a table, at any point of their run.
* `cursorNext_reads`, `selectCommand_reads`: whatever a cursor answers, only pages were fetched.
-/

namespace MiniDB

open BPlusTree Pager

variable {s s' : Pager} {table : Table} {n : ℕ} {σ : Schema} {t : PageTreeAny} {rowSize : ℕ}

/-- A page of a leaf of the tree. -/
def IsLeafOf (t : PageTreeAny) (q : ℕ) : Prop := q ∈ t.2.leaves.map Leaf.page

/-- A leaf leads to a leaf, or nowhere. -/
theorem Chain.next {m : ℕ → Page} {ls : List (Leaf Int64 (List UInt8))}
    (h : Chain m rowSize ls 0) {l : Leaf Int64 (List UInt8)} (hl : l ∈ ls) :
    nextLeaf (m l.page) = 0 ∨ nextLeaf (m l.page) ∈ ls.map Leaf.page := by
  induction ls with
  | nil => exact absurd hl List.not_mem_nil
  | cons d ls ih =>
    cases ls with
    | nil =>
      obtain rfl := List.mem_singleton.mp hl
      exact Or.inl (LeafPage.next h)
    | cons d' ls =>
      rcases List.mem_cons.mp hl with rfl | hl
      · refine Or.inr ?_
        rw [h.1.next]
        exact List.mem_map_of_mem (List.mem_cons_of_mem _ List.mem_cons_self)
      · exact (ih h.2 hl).imp_right fun hmem => List.mem_cons_of_mem _ hmem

theorem Holds.next_leaf (h : Holds s table n σ t) {q : ℕ} (hq : IsLeafOf t q) :
    nextLeaf (s.page q) = 0 ∨ IsLeafOf t (nextLeaf (s.page q)) := by
  obtain ⟨l, hl, rfl⟩ := List.mem_map.mp hq
  exact h.represents.stored.chain.next hl

theorem Holds.leaf_lt (h : Holds s table n σ t) {q : ℕ} (hq : IsLeafOf t q) : q < s.numPages := by
  obtain ⟨l, hl, rfl⟩ := List.mem_map.mp hq
  exact h.represents.good.pages _ (Tree.leaf_page_mem_labels hl)

/-- The leaves of a stored tree are leaf pages. -/
theorem Chain.leafPage {m : ℕ → Page} {ls : List (Leaf Int64 (List UInt8))} {next : ℕ}
    (h : Chain m rowSize ls next) {l : Leaf Int64 (List UInt8)} (hl : l ∈ ls) :
    ∃ e, LeafPage rowSize (m l.page) l.cells e := by
  induction ls with
  | nil => exact absurd hl List.not_mem_nil
  | cons d ls ih =>
    cases ls with
    | nil =>
      obtain rfl := List.mem_singleton.mp hl
      exact ⟨next, h⟩
    | cons d' ls =>
      rcases List.mem_cons.mp hl with rfl | hl
      · exact ⟨_, h.1⟩
      · exact ih h.2 hl

theorem Holds.isLeafOf_entry (h : Holds s table n σ t) : IsLeafOf t t.2.entry := by
  obtain ⟨l, ls, hleaves, hentry, -⟩ := h.represents.leaf_cons h.sound
  rw [IsLeafOf, hleaves, ← hentry]
  exact List.mem_map_of_mem List.mem_cons_self

/-- The leaf that a scan finds from the page it remembers. -/
theorem Holds.scanLeaf (h : Holds s table n σ t) {q : ℕ}
    (hq : q = table.rootPageNum ∨ IsLeafOf t q) :
    ∃ s₁ leaf s₂, pagerGetPage s q = some s₁ ∧
      MiniDB.firstLeaf walkFuel s₁ q = .ok (some leaf, s₂) ∧ Fetched s s₂ ∧ IsLeafOf t leaf := by
  rcases hq with rfl | hq
  · obtain ⟨s₁, s₂, hget, hfirst, hf⟩ := h.firstLeaf
    exact ⟨s₁, _, s₂, hget, hfirst, hf, h.isLeafOf_entry⟩
  · obtain ⟨s₁, hget, hf⟩ := pagerGetPage_of_lt h.sound (h.leaf_lt hq)
    refine ⟨s₁, q, s₁, hget, ?_, hf, hq⟩
    obtain ⟨l, hl, rfl⟩ := List.mem_map.mp hq
    obtain ⟨e, hleaf⟩ := (h.fetched hf).represents.stored.chain.leafPage hl
    have htype : nodeType (s₁.page l.page) ≠ nodeInternal := by
      rw [hleaf.type]
      decide
    rw [walkFuel, MiniDB.firstLeaf, if_neg htype]

/-! ## Cursors -/

/-- The cursors over a table: a scan remembers the root or a leaf, a lookup the root. -/
def CursorOf (table : Table) (t : PageTreeAny) : Cursor → Prop
  | .tableScan pageNum _ _ _ => pageNum = table.rootPageNum ∨ IsLeafOf t pageNum
  | .pkLookup root _ _ _ => root = table.rootPageNum
  | .filter child _ => CursorOf table t child
  | .projection child _ => CursorOf table t child

variable {cursor cursor' : Cursor} {r : Option Row}

/-- `table_scan_next` only reads. -/
theorem tableScanNext_reads (h : Holds s table n σ t) {q cellNum : ℕ} {done : Bool}
    (hq : q = table.rootPageNum ∨ IsLeafOf t q)
    (hrun : tableScanNext s table q cellNum rowSize done = .ok (r, cursor', s')) :
    Fetched s s' ∧ CursorOf table t cursor' := by
  unfold tableScanNext at hrun
  cases done with
  | true =>
    cases hrun
    exact ⟨Fetched.refl h.sound, hq⟩
  | false =>
    obtain ⟨s₁, leaf, s₂, hget, hfirst, hf, hleaf⟩ := h.scanLeaf hq
    have h₂ := h.fetched hf
    simp only [Bool.false_eq_true, if_false, hget, hfirst, bind, Except.bind] at hrun
    generalize (if nodeType (s₁.page q) = nodeInternal then 0 else cellNum) = c at hrun
    by_cases hcells : numCells (s₂.page leaf) ≤ c
    · rw [if_pos hcells] at hrun
      rcases h₂.next_leaf hleaf with hnext | hnext
      · rw [if_pos hnext] at hrun
        cases hrun
        exact ⟨hf, hq⟩
      · obtain ⟨s₃, hget', hf'⟩ := pagerGetPage_of_lt h₂.sound (h₂.leaf_lt hnext)
        by_cases hzero : nextLeaf (s₂.page leaf) = 0
        · rw [if_pos hzero] at hrun
          cases hrun
          exact ⟨hf, hq⟩
        · rw [if_neg hzero] at hrun
          simp only [hget'] at hrun
          cases hrow : deserializeRow s₃ table (s₃.page (nextLeaf (s₂.page leaf)))
            (leafNodeValue 0 rowSize) with
          | error f =>
            rw [hrow] at hrun
            cases hrun
          | ok row =>
            rw [hrow] at hrun
            cases hrun
            exact ⟨hf.trans hf', Or.inr hnext⟩
    · rw [if_neg hcells] at hrun
      cases hrow : deserializeRow s₂ table (s₂.page leaf) (leafNodeValue c rowSize) with
      | error f =>
        rw [hrow] at hrun
        cases hrun
      | ok row =>
        rw [hrow] at hrun
        cases hrun
        exact ⟨hf, Or.inr hleaf⟩

/-- `pk_lookup_next` only reads. -/
theorem pkLookupNext_reads (h : Holds s table n σ t) {key : Int64} {done : Bool}
    (hrun : pkLookupNext s table table.rootPageNum key rowSize done = .ok (r, cursor', s')) :
    Fetched s s' ∧ CursorOf table t cursor' := by
  unfold pkLookupNext at hrun
  cases done with
  | true =>
    cases hrun
    exact ⟨Fetched.refl h.sound, rfl⟩
  | false =>
    obtain ⟨s₁, hget, hf₁⟩ := pagerGetPage_of_lt h.sound h.root_lt
    obtain ⟨s₂, hdescent, hf₂⟩ := (h.fetched hf₁).descent key
    simp only [Bool.false_eq_true, if_false, hget, hdescent, bind, Except.bind] at hrun
    split at hrun
    · cases hrun
      exact ⟨hf₁.trans hf₂, rfl⟩
    · split at hrun
      · cases hrun
      · cases hrun
        exact ⟨hf₁.trans hf₂, rfl⟩

/-- **Whatever a cursor answers, only pages were fetched.** -/
theorem cursorNext_reads (fuel : ℕ) (h : Holds s table n σ t) (hc : CursorOf table t cursor)
    (hrun : cursorNext table fuel cursor s = .ok (r, cursor', s')) :
    Fetched s s' ∧ CursorOf table t cursor' := by
  induction fuel generalizing cursor cursor' s s' r with
  | zero => cases hrun
  | succ fuel ih =>
    cases cursor with
    | tableScan q cellNum rowSize done => exact tableScanNext_reads h hc hrun
    | pkLookup root key rowSize done =>
      obtain rfl : root = table.rootPageNum := hc
      exact pkLookupNext_reads h hrun
    | filter child condition =>
      rw [cursorNext] at hrun
      obtain ⟨tableNum, -, hrun⟩ := bind_eq_ok hrun
      obtain ⟨⟨row, child', s₁⟩, hchild, hrun⟩ := bind_eq_ok hrun
      obtain ⟨hf, hc'⟩ := ih h (show CursorOf table t child from hc) hchild
      cases row with
      | none =>
        cases hrun
        exact ⟨hf, hc'⟩
      | some row =>
        obtain ⟨b, -, hrun⟩ := bind_eq_ok hrun
        cases b with
        | true =>
          cases hrun
          exact ⟨hf, hc'⟩
        | false =>
          obtain ⟨hf', hc''⟩ := ih (h.fetched hf)
            (show CursorOf table t (.filter child' condition) from hc') hrun
          exact ⟨hf.trans hf', hc''⟩
    | projection child columns =>
      rw [cursorNext] at hrun
      obtain ⟨⟨row, child', s₁⟩, hchild, hrun⟩ := bind_eq_ok hrun
      obtain ⟨hf, hc'⟩ := ih h (show CursorOf table t child from hc) hchild
      cases row with
      | none =>
        cases hrun
        exact ⟨hf, hc'⟩
      | some row =>
        obtain ⟨tableNum, -, hrun⟩ := bind_eq_ok hrun
        obtain ⟨values, -, hrun⟩ := bind_eq_ok hrun
        cases hrun
        exact ⟨hf, hc'⟩

/-- Draining a cursor only reads. -/
theorem drain_reads (fuel : ℕ) (h : Holds s table n σ t) (hc : CursorOf table t cursor)
    {rows : List Row} (hrun : drain table fuel cursor s = .ok (rows, s')) : Fetched s s' := by
  induction fuel generalizing cursor s rows with
  | zero => cases hrun
  | succ fuel ih =>
    rw [drain] at hrun
    obtain ⟨⟨row, cursor', s₁⟩, hnext, hrun⟩ := bind_eq_ok hrun
    obtain ⟨hf, hc'⟩ := cursorNext_reads scanFuel h hc hnext
    cases row with
    | none =>
      cases hrun
      exact hf
    | some row =>
      obtain ⟨⟨rows', s₂⟩, hrest, hrun⟩ := bind_eq_ok hrun
      cases hrun
      exact hf.trans (ih (h.fetched hf) hc' hrest)

/-! ## Plans -/

/-- The plans over a table. -/
def PlanOf (table : Table) : PlanNode → Prop
  | .tableScan root _ => root = table.rootPageNum
  | .pkLookup root _ _ => root = table.rootPageNum
  | .filter child _ => PlanOf table child
  | .projection child _ => PlanOf table child
  | .insert _ _ => True

/-- `build_cursor` makes a cursor over the same table. -/
theorem buildCursor_of {plan : PlanNode} (hp : PlanOf table plan)
    (hrun : buildCursor plan = .ok cursor) : CursorOf table t cursor := by
  induction plan generalizing cursor with
  | tableScan root rowSize =>
    cases hrun
    exact Or.inl hp
  | pkLookup root key rowSize =>
    cases hrun
    exact hp
  | filter child condition ih =>
    obtain ⟨c, hchild, hrun⟩ := bind_eq_ok hrun
    cases hrun
    exact @ih c hp hchild
  | projection child columns ih =>
    obtain ⟨c, hchild, hrun⟩ := bind_eq_ok hrun
    cases hrun
    exact @ih c hp hchild
  | insert root values => cases hrun

/-- The sources there are. -/
theorem buildSource_cases {where_ : Option Expr} {tableNum root rowSize : ℕ} {source : PlanNode}
    (hrun : buildSource s tableNum root rowSize where_ = .ok source) :
    source = .tableScan root rowSize ∨ (∃ key, source = .pkLookup root key rowSize) ∨
      ∃ condition, source = .filter (.tableScan root rowSize) condition := by
  cases where_ with
  | none =>
    cases hrun
    exact Or.inl rfl
  | some condition =>
    obtain ⟨⟨left, right⟩, -, hrun⟩ := bind_eq_ok hrun
    obtain ⟨column, -, hrun⟩ := bind_eq_ok hrun
    obtain ⟨primary, -, hrun⟩ := bind_eq_ok hrun
    cases primary with
    | true =>
      obtain ⟨key, -, hrun⟩ := bind_eq_ok hrun
      cases hrun
      exact Or.inr (Or.inl ⟨key, rfl⟩)
    | false =>
      cases hrun
      exact Or.inr (Or.inr ⟨condition, rfl⟩)

/-- `build_plan` makes a plan over its table. -/
theorem buildSource_of {where_ : Option Expr} {tableNum : ℕ} {plan : PlanNode}
    (hrun : buildSource s tableNum table.rootPageNum rowSize where_ = .ok plan) :
    PlanOf table plan := by
  rcases buildSource_cases hrun with rfl | ⟨key, rfl⟩ | ⟨condition, rfl⟩
  · exact rfl
  · exact rfl
  · exact rfl

theorem buildPlan_of {name : List UInt8} {isStar : Bool}
    {columns : List Expr} {where_ : Option Expr} {plan : PlanNode}
    (hrun : buildPlan s (.select name isStar columns where_) table = .ok plan) :
    PlanOf table plan := by
  unfold buildPlan at hrun
  obtain ⟨tableNum, -, hrun⟩ := bind_eq_ok hrun
  obtain ⟨source, hsource, hrun⟩ := bind_eq_ok hrun
  have hof := buildSource_of hsource
  by_cases hlen : columns.length > 0
  · simp only [if_pos hlen] at hrun
    cases hrun
    exact hof
  · simp only [if_neg hlen] at hrun
    cases hrun
    exact hof

/-- **A `SELECT` only reads.** -/
theorem selectCommand_reads (h : Holds s table n σ t) {name : List UInt8} {isStar : Bool}
    {columns : List Expr} {where_ : Option Expr} {tableNum : ℕ} {o : Outcome}
    (hrun : selectCommand s table tableNum (.select name isStar columns where_) columns where_ =
      .ok (o, s')) : Fetched s s' := by
  unfold selectCommand at hrun
  obtain ⟨plan, hplan, hrun⟩ := bind_eq_ok hrun
  obtain ⟨complaint, -, hrun⟩ := bind_eq_ok hrun
  cases complaint with
  | some text =>
    cases hrun
    exact Fetched.refl h.sound
  | none =>
    obtain ⟨cursor, hcursor, hrun⟩ := bind_eq_ok hrun
    obtain ⟨⟨rows, s₁⟩, hdrain, hrun⟩ := bind_eq_ok hrun
    obtain ⟨lines, -, hrun⟩ := bind_eq_ok hrun
    cases hrun
    exact drain_reads scanFuel h (buildCursor_of (buildPlan_of hplan) hcursor) hdrain

end MiniDB
