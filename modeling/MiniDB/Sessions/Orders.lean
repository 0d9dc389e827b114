import MiniDB.Cursors.Plans
import MiniDB.Parsing.Trees
import MiniDB.Sessions.TableRuns
import MiniDB.Statements.Conditions

/-!
# The order of insertions

Rows with different keys that are inserted into a new table, in one order or another, make trees of
different shapes; a scan and a lookup do not see the difference.

* `insertAll`: one `INSERT` after the other.
* `Holds.insertAll`: what they make of a table.
* `insertAll_order`: **the order does not matter**.
-/

namespace MiniDB

open BPlusTree Pager

/-- `insert_command` on one row after the other. -/
def insertAll (table : Table) : List (List Expr) → Pager → Exec (List Outcome × Pager)
  | [], s => .ok ([], s)
  | values :: rest, s => do
    let (o, s) ← insertCommand s table table.tableName values
    let (os, s) ← insertAll table rest s
    return (o :: os, s)

/-- The pages are not exhausted by any of the rows. -/
def RoomForAll (table : Table) (n : ℕ) : List (List Expr) → Pager → Prop
  | [], _ => True
  | values :: rest, s => HasRoom s table n values ∧
      ∀ o s', insertCommand s table table.tableName values = .ok (o, s') →
        RoomForAll table n rest s'

/-- The values of an `INSERT` that passes the checks, with texts as the parser returns them. -/
structure Insertable (σ : Schema) (values : List Expr) : Prop where
  agree : Matches σ values
  fit : TextsFit values
  scanned : AreScanned values

/-- The primary key among the values. -/
def keyOf (σ : Schema) (values : List Expr) : Int64 :=
  match values[σ.primaryKey]? with
  | some (.literalInt key) => key
  | _ => 0

/-- The cell that the values are stored in. -/
def storedCell (σ : Schema) (values : List Expr) : Cell :=
  (keyOf σ values, rowBytes (insertedRow values).values)

variable {s s' : Pager} {table : Table} {n : ℕ} {σ : Schema} {t : PageTreeAny}
  {values : List Expr} {rows rows' : List (List Expr)}

theorem Matches.getElem?_key (h : Matches σ values) :
    values[σ.primaryKey]? = some (.literalInt (keyOf σ values)) := by
  obtain ⟨key, hkey⟩ := h.exists_key
  rw [keyOf, hkey]

/-- A row that was inserted is read back. -/
theorem Insertable.rowOf (h : Insertable σ values) :
    MiniDB.rowOf σ (storedCell σ values) = insertedRow values :=
  congrArg Row.mk (h.agree.decodeValues h.fit h.scanned)

/-! ## One insertion after the other -/

/-- **Rows with new keys are inserted one after the other.** -/
theorem Holds.insertAll (h : Holds s table n σ t) (hfilled : t.2.Filled)
    (hrows : ∀ values ∈ rows, Insertable σ values) (hkeys : (rows.map (keyOf σ)).Nodup)
    (hnew : ∀ c ∈ t.2.contents, c.1 ∉ rows.map (keyOf σ)) (hroom : RoomForAll table n rows s) :
    ∃ s' t', MiniDB.insertAll table rows s =
        .ok (List.replicate rows.length ⟨.commandSuccess, []⟩, s') ∧
      Holds s' table n σ t' ∧ t'.2.Filled ∧
      t'.2.contents.Perm (rows.map (storedCell σ) ++ t.2.contents) := by
  induction rows generalizing s t with
  | nil => exact ⟨s, t, rfl, h, hfilled, List.Perm.refl _⟩
  | cons values rows ih =>
    obtain ⟨hrow, hrest⟩ := List.forall_mem_cons.mp hrows
    rw [List.map_cons, List.nodup_cons] at hkeys
    have hmiss : ∀ a ∈ (t.2.leafFor (keyOf σ values)).cells, a.1 ≠ keyOf σ values := by
      intro a ha heq
      have hmem : a ∈ t.2.contents :=
        mem_contents.mpr ⟨_, Tree.leafFor_mem_leaves _ t.2, ha⟩
      exact hnew a hmem (heq ▸ List.mem_cons_self)
    obtain ⟨s₁, hrun, -, hev, hrep⟩ := insertCommand_hasRoom h hrow.agree hrow.fit
      hrow.agree.getElem?_key hmiss hroom.1
    obtain ⟨h₁, -⟩ := h.replace hev hrep (page_insertRoot _ _)
    -- the contents with the new cell
    have hcontents : (treeInserted s σ.types (keyOf σ values) (insertedRow values) t).1.2.contents =
        insertCell (keyOf σ values) (rowBytes (insertedRow values).values) t.2.contents :=
      contents_insertRoot _ h.represents.good.ordered
    have hperm := insertCell_perm (keyOf σ values) (rowBytes (insertedRow values).values)
      t.2.contents
    obtain ⟨s', t', hrest', h', hfilled', hperm'⟩ := ih h₁
      (filled_insertRoot σ.one_le_maxCells _ hfilled) hrest hkeys.2 (by
        intro c hc
        rw [hcontents, mem_insertCell] at hc
        rcases hc with rfl | hc
        · exact hkeys.1
        · exact fun hmem => hnew c hc (List.mem_cons_of_mem _ hmem)) (hroom.2 _ _ hrun)
    refine ⟨s', t', ?_, h', hfilled', ?_⟩
    · rw [MiniDB.insertAll, hrun]
      show (MiniDB.insertAll table rows s₁ >>= _) = _
      rw [hrest']
      rfl
    · rw [hcontents] at hperm'
      refine hperm'.trans ((hperm.append_left _).trans ?_)
      rw [List.map_cons, List.cons_append]
      exact List.perm_middle

/-- Cells in ascending order are determined by what they are. -/
theorem eq_of_sorted_perm {cs cs' : List Cell} (h : Tree.Sorted cs) (h' : Tree.Sorted cs')
    (hperm : cs.Perm cs') : cs = cs' :=
  List.Perm.eq_of_pairwise (fun _ _ _ _ hlt hgt => absurd hlt hgt.not_gt) h h' hperm

/-- **A new table after the insertions** holds the rows in ascending order. -/
theorem FreshTable.insertAll (h₀ : FreshTable s table n σ)
    (hrows : ∀ values ∈ rows, Insertable σ values) (hroom : RoomForAll table n rows s)
    {sorted : List (List Expr)} (hperm : sorted.Perm rows)
    (hsorted : sorted.Pairwise fun v w => keyOf σ v < keyOf σ w) :
    ∃ s' t', MiniDB.insertAll table rows s =
        .ok (List.replicate rows.length ⟨.commandSuccess, []⟩, s') ∧
      Holds s' table n σ t' ∧ t'.2.Filled ∧ t'.2.contents = sorted.map (storedCell σ) := by
  have hnodup : (sorted.map (keyOf σ)).Nodup :=
    List.pairwise_map.mpr (hsorted.imp fun hlt => hlt.ne)
  have hempty : ∀ l ∈ (Tree.leaf table.rootPageNum [] : PageTree 0).leaves.tail, l.cells ≠ [] :=
    fun l hl => absurd hl List.not_mem_nil
  obtain ⟨s', t', hrun, h', hfilled, hcontents⟩ := h₀.holds.insertAll hempty hrows
    ((hperm.map (keyOf σ)).nodup_iff.mp hnodup) (fun c hc => absurd hc List.not_mem_nil) hroom
  refine ⟨s', t', hrun, h', hfilled, eq_of_sorted_perm ?_ ?_ ?_⟩
  · exact h'.represents.good.ordered.sorted_contents.1
  · exact List.pairwise_map.mpr hsorted
  · rw [Tree.contents_zero, Tree.cells_leaf, List.append_nil] at hcontents
    exact hcontents.trans (hperm.map (storedCell σ)).symm

/-- **The order of insertions does not matter.**  All of them succeed, in one order and in the
other; a scan then gives the rows in ascending order of their keys, and a lookup of any key the same
rows in both. -/
theorem insertAll_order (h₀ : FreshTable s table n σ)
    (hrows : ∀ values ∈ rows, Insertable σ values) (hkeys : (rows.map (keyOf σ)).Nodup)
    (hperm : rows'.Perm rows) (hroom : RoomForAll table n rows s)
    (hroom' : RoomForAll table n rows' s) :
    ∃ s₁ s₂, ∃ sorted : List (List Expr), sorted.Perm rows ∧
      (sorted.Pairwise fun v w => keyOf σ v < keyOf σ w) ∧
      insertAll table rows s = .ok (List.replicate rows.length ⟨.commandSuccess, []⟩, s₁) ∧
      insertAll table rows' s = .ok (List.replicate rows.length ⟨.commandSuccess, []⟩, s₂) ∧
      (∃ s', drain table scanFuel (.tableScan table.rootPageNum 0 σ.rowSize false) s₁ =
        .ok (sorted.map insertedRow, s')) ∧
      (∃ s', drain table scanFuel (.tableScan table.rootPageNum 0 σ.rowSize false) s₂ =
        .ok (sorted.map insertedRow, s')) ∧
      ∀ key, ∃ found s₁' s₂',
        drain table scanFuel (.pkLookup table.rootPageNum key σ.rowSize false) s₁ =
          .ok (found, s₁') ∧
        drain table scanFuel (.pkLookup table.rootPageNum key σ.rowSize false) s₂ =
          .ok (found, s₂') := by
  obtain ⟨sorted, hsorted, hle⟩ : ∃ sorted : List (List Expr), sorted.Perm rows ∧
      sorted.Pairwise fun v w => keyOf σ v ≤ keyOf σ w := by
    have hsort : (rows.mergeSort fun v w => decide (keyOf σ v ≤ keyOf σ w)).Pairwise
        fun v w => decide (keyOf σ v ≤ keyOf σ w) = true := by
      refine List.pairwise_mergeSort ?_ ?_ rows
      · intro a b c hab hbc
        exact decide_eq_true ((of_decide_eq_true hab).trans (of_decide_eq_true hbc))
      · intro a b
        simpa using le_total (keyOf σ a) (keyOf σ b)
    exact ⟨_, List.mergeSort_perm rows _, hsort.imp of_decide_eq_true⟩
  have hne : sorted.Pairwise fun v w => keyOf σ v ≠ keyOf σ w :=
    List.pairwise_map.mp ((hsorted.map (keyOf σ)).nodup_iff.mpr hkeys)
  have hlt : sorted.Pairwise fun v w => keyOf σ v < keyOf σ w :=
    (hle.and hne).imp fun h => lt_of_le_of_ne h.1 h.2
  have hrows' : ∀ values ∈ rows', Insertable σ values := fun values hv =>
    hrows values (hperm.mem_iff.mp hv)
  obtain ⟨s₁, t₁, hrun₁, h₁, hfilled₁, hcells₁⟩ := h₀.insertAll hrows hroom hsorted hlt
  obtain ⟨s₂, t₂, hrun₂, h₂, hfilled₂, hcells₂⟩ := h₀.insertAll hrows' hroom'
    (hsorted.trans hperm.symm) hlt
  rw [hperm.length_eq] at hrun₂
  -- the rows that are read from the cells
  have hread : (sorted.map (storedCell σ)).map (rowOf σ) = sorted.map insertedRow := by
    rw [List.map_map]
    exact List.map_congr_left fun v hv => (hrows v (hsorted.mem_iff.mp hv)).rowOf
  refine ⟨s₁, s₂, sorted, hsorted, hlt, hrun₁, hrun₂, ?_, ?_, ?_⟩
  · obtain ⟨s', hdrain, -⟩ := h₁.drain_scan
    exact ⟨s', by rw [hdrain, h₁.scanRows_iff.mpr hfilled₁, hcells₁, hread]⟩
  · obtain ⟨s', hdrain, -⟩ := h₂.drain_scan
    exact ⟨s', by rw [hdrain, h₂.scanRows_iff.mpr hfilled₂, hcells₂, hread]⟩
  · intro key
    obtain ⟨s₁', hdrain₁, -⟩ := h₁.drain_pkLookup key
    obtain ⟨s₂', hdrain₂, -⟩ := h₂.drain_pkLookup key
    have hsame : lookupRows σ t₁ key = lookupRows σ t₂ key := by
      unfold lookupRows
      rw [Tree.lookup_eq_contents h₁.represents.good.ordered,
        Tree.lookup_eq_contents h₂.represents.good.ordered, hcells₁, hcells₂]
    exact ⟨_, s₁', s₂', hdrain₁, by rw [hdrain₂, hsame]⟩

/-! ## Two rows -/

/-- A leaf that is the root has room for rows as long as it is not full. -/
theorem Holds.roomForAll_leaf {page : ℕ} {cells : List Cell}
    (h : Holds s table n σ ⟨0, .leaf page cells⟩)
    (hlen : cells.length + rows.length ≤ leafNodeMaxCells σ.rowSize) :
    RoomForAll table n rows s := by
  induction rows generalizing s cells with
  | nil => trivial
  | cons values rows ih =>
    rw [List.length_cons] at hlen
    -- no leaf is split, for the only one is not full
    have hroom : HasRoom s table n values := by
      intro leaf hat
      obtain ⟨key, s', -, hdescent, -⟩ := hat.descent
      obtain ⟨s'', hdescent', -⟩ := h.descent key
      have heq := hdescent'.symm.trans hdescent
      cases heq
      obtain ⟨e, hleaf⟩ := h.leafPage key
      have hfull := hat.full
      rw [h.describes.rowSize, hleaf.length_cells] at hfull
      have hle : leafNodeMaxCells σ.rowSize ≤ cells.length := hfull
      omega
    refine ⟨hroom, ?_⟩
    intro r s' hrun
    obtain ⟨r', s'', hrun', hout⟩ := insertCommand_spec h hroom.canFinish
    have heq := hrun'.symm.trans hrun
    cases heq
    cases hout with
    | mismatch => exact ih h (by omega)
    | duplicate _ _ _ hf => exact ih (h.fetched hf) (by omega)
    | tooLong _ hf => exact ih (h.fetched hf) (by omega)
    | noPage _ _ hev => exact ih (h.outside hev).1 (by omega)
    | @inserted key _ _ _ _ _ _ hev hrep =>
      obtain ⟨h', -⟩ := h.replace hev hrep (page_insertRoot _ _)
      unfold treeInserted at h'
      rcases insertRoot_leaf_cases s.numPages (Tree.leaf page cells : PageTree 0) with
        ⟨-, heq⟩ | ⟨hfull, -⟩
      · rw [heq] at h'
        refine ih h' ?_
        rw [length_insertCell, Tree.cells_leaf]
        omega
      · have hle : leafNodeMaxCells σ.rowSize ≤ cells.length := hfull
        omega

theorem insertable_notesRow (key : Int64) : Insertable (schemaOf notes validNotes) (notesRow key) :=
  ⟨matches_notesRow key, textsFit_notesRow key, areScanned_notesRow key⟩

/-- The rows `2` and `1`, in either order. -/
theorem insertAll_order_notes : ∃ s table s₁ s₂ sorted,
    FreshTable s table 0 (schemaOf notes validNotes) ∧ sorted ≠ [] ∧
      insertAll table [notesRow 2, notesRow 1] s =
        .ok (List.replicate 2 ⟨.commandSuccess, []⟩, s₁) ∧
      insertAll table [notesRow 1, notesRow 2] s =
        .ok (List.replicate 2 ⟨.commandSuccess, []⟩, s₂) ∧
      (∃ s', drain table scanFuel (.tableScan table.rootPageNum 0
        (schemaOf notes validNotes).rowSize false) s₁ = .ok (sorted.map insertedRow, s')) ∧
      ∃ s', drain table scanFuel (.tableScan table.rootPageNum 0
        (schemaOf notes validNotes).rowSize false) s₂ = .ok (sorted.map insertedRow, s') := by
  obtain ⟨s, table, h₀, -⟩ := exists_freshNotes
  have hmax : leafNodeMaxCells (schemaOf notes validNotes).rowSize = 2 := leafNodeMaxCells_notes
  have hrows : ∀ values ∈ [notesRow 2, notesRow 1],
      Insertable (schemaOf notes validNotes) values := by
    intro values hv
    rcases List.mem_cons.mp hv with rfl | hv
    · exact insertable_notesRow 2
    · rw [List.mem_singleton.mp hv]
      exact insertable_notesRow 1
  have hroom : ∀ rows : List (List Expr), rows.length = 2 → RoomForAll table 0 rows s := by
    intro rows hlen
    refine h₀.holds.roomForAll_leaf ?_
    rw [hlen, hmax]
    exact le_rfl
  obtain ⟨s₁, s₂, sorted, hperm, -, hrun₁, hrun₂, hscan₁, hscan₂, -⟩ :=
    insertAll_order h₀ hrows (by decide) (List.Perm.swap _ _ _ : [notesRow 1, notesRow 2].Perm _)
      (hroom _ rfl) (hroom _ rfl)
  refine ⟨s, table, s₁, s₂, sorted, h₀, ?_, hrun₁, hrun₂, hscan₁, hscan₂⟩
  rintro rfl
  exact absurd hperm.length_eq (by decide)

end MiniDB
