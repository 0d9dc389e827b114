import MiniDB.Cursors.Reading

/-!
# The rows that a cursor delivers

A cursor is asked for one row at a time.  How a cursor over another cursor answers follows from the
rows that the other one delivers: a filter leaves some of them out, a projection rewrites each.

* `Delivers`: the rows of all calls, one after the other.
* `Delivers.drain`: **they are what draining the cursor gives**.
* `Delivers.filter`, `Delivers.drain_projection`: the cursors over another cursor.
-/

namespace MiniDB

open BPlusTree Pager

variable {s s' : Pager} {table : Table} {n k k' : ℕ} {cursor child : Cursor} {rows : List Row}
  {condition : Expr} {columns : List Expr}

/-- One call after the other, from the state `s` on, the cursor delivers the rows, and then no more.
Every call gets at least `k` rounds, and only fetches pages. -/
inductive Delivers (table : Table) (k : ℕ) : Cursor → Pager → List Row → Prop
  | done {cursor cursor' : Cursor} {s s' : Pager} :
      (∀ fuel, k ≤ fuel → cursorNext table fuel cursor s = .ok (none, cursor', s')) →
      Fetched s s' → Delivers table k cursor s []
  | next {cursor cursor' : Cursor} {s s' : Pager} {row : Row} {rows : List Row} :
      (∀ fuel, k ≤ fuel → cursorNext table fuel cursor s = .ok (some row, cursor', s')) →
      Fetched s s' → Delivers table k cursor' s' rows → Delivers table k cursor s (row :: rows)

theorem Delivers.mono (h : Delivers table k cursor s rows) (hk : k ≤ k') :
    Delivers table k' cursor s rows := by
  induction h with
  | done hnext hf => exact .done (fun fuel hfuel => hnext fuel (hk.trans hfuel)) hf
  | next hnext hf _ ih => exact .next (fun fuel hfuel => hnext fuel (hk.trans hfuel)) hf ih

/-- **Draining a cursor** gives the rows that it delivers. -/
theorem Delivers.drain (h : Delivers table k cursor s rows) (hk : k ≤ scanFuel) {fuel : ℕ}
    (hfuel : rows.length < fuel) :
    ∃ s', MiniDB.drain table fuel cursor s = .ok (rows, s') ∧ Fetched s s' := by
  induction h generalizing fuel with
  | @done cursor cursor' s s' hnext hf =>
    obtain ⟨fuel, rfl⟩ : ∃ f, fuel = f + 1 := ⟨fuel - 1, by omega⟩
    refine ⟨s', ?_, hf⟩
    rw [MiniDB.drain, hnext scanFuel hk]
    rfl
  | @next cursor cursor' s s₁ row rows hnext hf _ ih =>
    obtain ⟨fuel, rfl⟩ : ∃ f, fuel = f + 1 := ⟨fuel - 1, by omega⟩
    obtain ⟨s', hrest, hf'⟩ := ih (Nat.lt_of_succ_lt_succ hfuel)
    refine ⟨s', ?_, hf.trans hf'⟩
    rw [MiniDB.drain, hnext scanFuel hk]
    show (MiniDB.drain table fuel cursor' s₁ >>= _) = _
    rw [hrest]
    rfl

/-- One round of `filter_next`: the child delivers a row, and if it fails the test the loop goes on
behind it. -/
theorem cursorNext_filter {fuel : ℕ} {child' : Cursor} {row : Row} (condition : Expr)
    (hfind : findTable (s.page 0) table.tableName = .ok n)
    (hnext : cursorNext table fuel child s = .ok (some row, child', s')) (hf : Fetched s s') :
    cursorNext table (fuel + 1) (.filter child condition) s =
      (rowMatchesWhere (some condition) row (s.page 0) n >>= fun b =>
        if b then .ok (some row, .filter child' condition, s')
        else cursorNext table fuel (.filter child' condition) s') := by
  rw [cursorNext, hfind]
  show (cursorNext table fuel child s >>= _) = _
  rw [hnext, ← hf.page]
  rfl

/-- A row that satisfies the condition is delivered. -/
theorem cursorNext_filter_keep {child' : Cursor} {row : Row} (condition : Expr)
    (hfind : findTable (s.page 0) table.tableName = .ok n)
    (hnext : ∀ fuel, k ≤ fuel → cursorNext table fuel child s = .ok (some row, child', s'))
    (hf : Fetched s s') (htest : rowMatchesWhere (some condition) row (s.page 0) n = .ok true) :
    ∀ fuel, k + 1 ≤ fuel → cursorNext table fuel (.filter child condition) s =
      .ok (some row, .filter child' condition, s') := by
  intro fuel hfuel
  obtain ⟨fuel, rfl⟩ : ∃ f, fuel = f + 1 := ⟨fuel - 1, by omega⟩
  rw [cursorNext_filter condition hfind (hnext fuel (by omega)) hf, htest]
  rfl

/-- A row that does not is passed over, which takes a round. -/
theorem cursorNext_filter_skip {child' : Cursor} {row : Row} (condition : Expr)
    (hfind : findTable (s.page 0) table.tableName = .ok n)
    (hnext : ∀ fuel, k ≤ fuel → cursorNext table fuel child s = .ok (some row, child', s'))
    (hf : Fetched s s') (htest : rowMatchesWhere (some condition) row (s.page 0) n = .ok false)
    (hk : k ≤ k') :
    ∀ fuel, k' + 1 ≤ fuel → ∃ f, k' ≤ f ∧ cursorNext table fuel (.filter child condition) s =
      cursorNext table f (.filter child' condition) s' := by
  intro fuel hfuel
  obtain ⟨fuel, rfl⟩ : ∃ f, fuel = f + 1 := ⟨fuel - 1, by omega⟩
  refine ⟨fuel, by omega, ?_⟩
  rw [cursorNext_filter condition hfind (hnext fuel (by omega)) hf, htest]
  rfl

/-- A cursor whose calls come down to those of another one. -/
theorem Delivers.of_calls {cursor' : Cursor} (h : Delivers table k cursor' s' rows)
    (hf : Fetched s s') (hk : k ≤ k') (hcalls : ∀ fuel, k' ≤ fuel →
      ∃ f, k ≤ f ∧ cursorNext table fuel cursor s = cursorNext table f cursor' s') :
    Delivers table k' cursor s rows := by
  cases h with
  | @done _ cursor'' _ s'' hnext hf' =>
    have hcall : ∀ fuel, k' ≤ fuel →
        cursorNext table fuel cursor s = .ok (none, cursor'', s'') := by
      intro fuel hfuel
      obtain ⟨f, hle, heq⟩ := hcalls fuel hfuel
      rw [heq, hnext f hle]
    exact .done hcall (hf.trans hf')
  | @next _ cursor'' _ s'' row _ hnext hf' htail =>
    have hcall : ∀ fuel, k' ≤ fuel →
        cursorNext table fuel cursor s = .ok (some row, cursor'', s'') := by
      intro fuel hfuel
      obtain ⟨f, hle, heq⟩ := hcalls fuel hfuel
      rw [heq, hnext f hle]
    exact .next hcall (hf.trans hf') (htail.mono hk)

/-- **A filter** delivers the rows that satisfy its condition.  A call may pass over all of them,
and each takes a round. -/
theorem Delivers.filter {p : Row → Bool} (condition : Expr)
    (h : Delivers table k child s rows)
    (hfind : findTable (s.page 0) table.tableName = .ok n)
    (htest : ∀ row ∈ rows, rowMatchesWhere (some condition) row (s.page 0) n = .ok (p row)) :
    Delivers table (k + rows.length + 1) (.filter child condition) s (rows.filter p) := by
  induction h with
  | @done cursor cursor' s s' hnext hf =>
    have hcall : ∀ fuel, k + 1 ≤ fuel → cursorNext table fuel (.filter cursor condition) s =
        .ok (none, .filter cursor' condition, s') := by
      intro fuel hfuel
      obtain ⟨fuel, rfl⟩ : ∃ f, fuel = f + 1 := ⟨fuel - 1, by omega⟩
      rw [cursorNext, hfind]
      show (cursorNext table fuel cursor s >>= _) = _
      rw [hnext fuel (by omega)]
      rfl
    exact .done hcall hf
  | @next cursor cursor' s s₁ row rows hnext hf _ ih =>
    have hrest := ih (by rw [hf.page]; exact hfind) fun row' hrow => by
      rw [hf.page]
      exact htest row' (List.mem_cons_of_mem _ hrow)
    have hrow := htest row List.mem_cons_self
    have hle : k + rows.length + 1 ≤ k + (row :: rows).length + 1 := Nat.le_succ _
    cases hp : p row with
    | true =>
      rw [hp] at hrow
      rw [List.filter_cons_of_pos hp]
      refine .next (fun fuel hfuel => ?_) hf (hrest.mono hle)
      exact cursorNext_filter_keep condition hfind hnext hf hrow fuel (by omega)
    | false =>
      rw [hp] at hrow
      rw [List.filter_cons_of_neg (by rw [hp]; decide)]
      exact hrest.of_calls hf hle
        (cursorNext_filter_skip condition hfind hnext hf hrow (by omega))

/-- **A projection** rewrites each row; it stops at the first one that it cannot rewrite. -/
theorem Delivers.drain_projection (h : Delivers table k child s rows) (hk : k < scanFuel)
    (hfind : findTable (s.page 0) table.tableName = .ok n) {fuel : ℕ}
    (hfuel : rows.length < fuel) :
    (MiniDB.drain table fuel (.projection child columns) s).map Prod.fst =
      rows.mapM fun row => (projectRow (s.page 0) n row columns).map Row.mk := by
  induction h generalizing fuel with
  | @done cursor cursor' s s' hnext hf =>
    obtain ⟨fuel, rfl⟩ : ∃ f, fuel = f + 1 := ⟨fuel - 1, by omega⟩
    have hcall : cursorNext table scanFuel (.projection cursor columns) s =
        .ok (none, .projection cursor' columns, s') := by
      obtain ⟨f, hf'⟩ : ∃ f, scanFuel = f + 1 := ⟨scanFuel - 1, by omega⟩
      rw [hf', cursorNext, hnext f (by omega)]
      rfl
    rw [MiniDB.drain, hcall]
    rfl
  | @next cursor cursor' s s₁ row rows hnext hf _ ih =>
    obtain ⟨fuel, rfl⟩ : ∃ f, fuel = f + 1 := ⟨fuel - 1, by omega⟩
    have hrest := ih (by rw [hf.page]; exact hfind) (Nat.lt_of_succ_lt_succ hfuel)
    have hcall : cursorNext table scanFuel (.projection cursor columns) s =
        (projectRow (s.page 0) n row columns).map fun values =>
          (some ⟨values⟩, .projection cursor' columns, s₁) := by
      obtain ⟨f, hf'⟩ : ∃ f, scanFuel = f + 1 := ⟨scanFuel - 1, by omega⟩
      rw [hf', cursorNext, hnext f (by omega)]
      show (findTable (s₁.page 0) table.tableName >>= _) = _
      rw [hf.page, hfind]
      show (projectRow (s.page 0) n row columns >>= _) = _
      cases projectRow (s.page 0) n row columns <;> rfl
    rw [MiniDB.drain, hcall, List.mapM_cons]
    rw [hf.page] at hrest
    cases projectRow (s.page 0) n row columns with
    | error f => rfl
    | ok values =>
      show Except.map Prod.fst (MiniDB.drain table fuel (.projection cursor' columns) s₁ >>= _) =
        (rows.mapM _ >>= _)
      rw [← hrest]
      cases MiniDB.drain table fuel (.projection cursor' columns) s₁ <;> rfl

end MiniDB
