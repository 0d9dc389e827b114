import MiniDB.Cursors.Scan
import MiniDB.Sessions.Ascending
import MiniDB.Sessions.TableRuns
import MiniDB.Sessions.Updating

/-!
# The two copies of a key

The key of a row stands in its cell and again in the row.  An `INSERT` writes both; an `UPDATE`
writes only the one in the row, and does not ask whether the column it assigns is the primary key.

* `KeysAgree`: the two copies are the same.
* `KeepsKeys`: no `UPDATE` assigns a primary key another value.
* `Change.keysAgree`, `Reachable.keysAgree`: **then the copies stay the same**.
* `reachable_keysMatch`: the rows of a table as they are read.
-/

namespace MiniDB

open BPlusTree Pager

variable {s s' : Pager} {table : Table} {n : ℕ} {σ : Schema} {t : PageTreeAny} {catalog : Page}
  {where_ : Option Expr} {as : List (ℕ × Expr)} {name : List UInt8} {ts ts' : List TableInfo}
  {tree : AstNode} {ok : Pager → AstNode → Prop} {c : Cell}

/-- The key of the cell is the value of the primary key column in its row. -/
def KeyAgrees (σ : Schema) (c : Cell) : Prop :=
  (decodeValues σ.types c.2)[σ.primaryKey]? = some (.integer c.1)

/-- The cells of all tables have the keys of their rows. -/
def KeysAgree (ts : List TableInfo) : Prop :=
  ∀ x ∈ ts, ∀ c ∈ x.tree.2.contents, KeyAgrees x.schema c

/-- The last value that is assigned to the primary key of a selected row is the one it has. -/
def KeepsKeysOf (σ : Schema) (catalog : Page) (n : ℕ) (where_ : Option Expr)
    (as : List (ℕ × Expr)) (cells : List Cell) : Prop :=
  ∀ c ∈ cells, selected σ catalog n where_ c = true →
    ∀ last, (assignedTo as σ.primaryKey).getLast? = some last → last = .literalInt c.1

/-- An `INSERT` does not run out of pages half way, and an `UPDATE` leaves the primary keys as they
are. -/
def KeepsKeys (s : Pager) (tree : AstNode) : Prop :=
  tree.CanFinish s ∧ ∀ name columns values where_,
    tree = .updateTable name columns values where_ →
      ∀ n, catalogNodeFindTable (s.page 0) name = .ok (some n) →
        ∀ as, resolveAssignments (s.page 0) n (columns.zip values) = .ok (.ok as) →
          ∀ σ t, Holds s (openTable s n name) n σ t →
            KeepsKeysOf σ (s.page 0) n where_ as t.2.contents

/-! ## One cell -/

/-- The row of an `INSERT` has the key of its cell. -/
theorem Matches.keyAgrees {values : List Expr} {key : Int64} (h : Matches σ values)
    (hkey : values[σ.primaryKey]? = some (.literalInt key)) :
    KeyAgrees σ (key, rowBytes (insertedRow values).values) := by
  have hread := decodeValues_rowBytes_stored (insertedRow values).values
  rw [h.columnTypes] at hread
  rw [KeyAgrees, hread, List.getElem?_map, insertedRow, List.getElem?_map, hkey]
  rfl

/-- A number that is assigned is there afterwards. -/
theorem assignAll_integer {es : List Expr} {key m : Int64}
    (hes : ∀ e ∈ es, typeMatches ColumnType.columnInteger.toByte e = true)
    (hlast : es.getLast? = some (.literalInt m)) : assignAll es (.integer key) = .integer m := by
  obtain ⟨front, rfl⟩ := List.getLast?_eq_some_iff.mp hlast
  have htype : (assignAll front (.integer key)).columnType = .columnInteger :=
    columnType_assignAll front (.integer key)
  rw [assignAll_append]
  cases hv : assignAll front (.integer key) with
  | integer k => rfl
  | text field length =>
    rw [hv] at htype
    cases htype
  | boolean b =>
    rw [hv] at htype
    cases htype

/-- An `UPDATE` that leaves the key alone. -/
theorem KeyAgrees.updated (h : KeyAgrees σ c) (ha : Assignable σ.types as)
    (hkeeps : selected σ catalog n where_ c = true →
      ∀ last, (assignedTo as σ.primaryKey).getLast? = some last → last = .literalInt c.1) :
    KeyAgrees σ (updatedCell σ catalog n where_ as c) := by
  unfold KeyAgrees at *
  by_cases hsel : selected σ catalog n where_ c = true
  · rw [getElem?_decodeValues_updated _ hsel, h, fst_updatedCell]
    cases hlast : (assignedTo as σ.primaryKey).getLast? with
    | none =>
      rw [List.getLast?_eq_none_iff.mp hlast]
      rfl
    | some last =>
      rw [hkeeps hsel last hlast] at hlast
      have hall : ∀ e ∈ assignedTo as σ.primaryKey,
          typeMatches ColumnType.columnInteger.toByte e = true := ha.assignedTo h
      rw [Option.map_some, assignAll_integer hall hlast]
      rfl
  · rw [updatedCell, if_neg hsel]
    exact h

/-! ## Runs -/

theorem KeysAgree.set {x : TableInfo} (h : KeysAgree ts)
    (hx : ∀ c ∈ x.tree.2.contents, KeyAgrees x.schema c) (n : ℕ) : KeysAgree (ts.set n x) := by
  intro y hy
  rcases List.mem_or_eq_of_mem_set hy with hy | rfl
  · exact h y hy
  · exact hx

/-- **A statement that leaves the keys alone keeps the copies the same.** -/
theorem Change.keysAgree (h : Change s ts s' tree ts') (hdb : Database s ts) (hall : KeysAgree ts)
    (hkeeps : KeepsKeys s tree) : KeysAgree ts' := by
  cases h with
  | same _ => exact hall
  | refused _ _ _ _ => exact hall
  | created hv _ =>
    intro y hy
    rcases List.mem_append.mp hy with hy | hy
    · exact hall y hy
    · rw [List.mem_singleton.mp hy]
      exact fun c hc => absurd hc List.not_mem_nil
  | @inserted _ values n x key hx _ hm _ hkey _ _ _ =>
    have hrep := hdb.represents n x hx
    have hold := hall x (List.mem_of_getElem? hx)
    refine hall.set ?_ n
    intro c hc
    have hcontents : (x.inserted s key (insertedRow values)).tree.2.contents =
        insertCell key (rowBytes (insertedRow values).values) x.tree.2.contents :=
      contents_insertRoot _ hrep.good.ordered
    rw [hcontents, mem_insertCell] at hc
    rcases hc with rfl | hc
    · exact hm.keyAgrees hkey
    · exact hold c hc
  | @updated name columns values where_ n x as hx hfind hres ha _ =>
    have hold := hall x (List.mem_of_getElem? hx)
    obtain ⟨y, hy, hholds⟩ := hdb.holds hfind
    obtain rfl : y = x := Option.some_inj.mp (hy.symm.trans hx)
    have hkeys := hkeeps.2 name columns values where_ rfl n hfind as hres _ _ hholds
    refine hall.set ?_ n
    intro c hc
    rw [Tree.contents_mapCells_map] at hc
    obtain ⟨d, hd, rfl⟩ := List.mem_map.mp hc
    exact (hold d hd).updated ha (hkeys d hd)
  | @deleted name where_ n x hx _ _ =>
    have hold := hall x (List.mem_of_getElem? hx)
    refine hall.set ?_ n
    intro c hc
    have hcontents : (x.deleted (s.page 0) n where_).tree.2.contents =
        x.tree.2.contents.filter fun c => ! selected x.schema (s.page 0) n where_ c :=
      Tree.contents_mapCells_filter _ _
    rw [hcontents] at hc
    exact hold c (List.mem_filter.mp hc).1

/-- **The copies are the same** in the runs that leave the keys alone. -/
theorem Reachable.keysAgree (h : Reachable ok s) (hok : ∀ s tree, ok s tree → KeepsKeys s tree) :
    ∃ ts, Database s ts ∧ KeysAgree ts := by
  refine h.invariant (P := fun _ ts => KeysAgree ts) (fun s tree h => (hok s tree h).1) ?_ ?_
  · exact fun _ _ x hx => absurd hx List.not_mem_nil
  · intro s tree s' ts ts' hdb _ hall hmeets _ hchange
    exact hchange.keysAgree hdb hall (hok s tree hmeets)

/-! ## The rows of a table -/

/-- In the rows of a table, as they are read along the leaves, the primary key column shows the keys
of the cells, and these ascend. -/
def KeysMatch (s : Pager) (table : Table) (n : ℕ) : Prop :=
  ∃ cells rows, tableCells s table.rootPageNum (catalogNodeRowSize (s.page 0) n) = .ok cells ∧
    tableRows s table (catalogNodeRowSize (s.page 0) n) = .ok rows ∧
    (rows.map fun row => row.values[catalogNodePrimaryKeyColumn (s.page 0) n]?) =
      (cells.map fun c => some (Value.integer c.1)) ∧
    cells.Pairwise fun a b => a.1 < b.1

theorem Holds.keysMatch_iff (h : Holds s table n σ t) :
    KeysMatch s table n ↔ ∀ c ∈ t.2.contents, KeyAgrees σ c := by
  have hcells := h.represents.tableCells h.sound
  have hrows := h.tableRows
  rw [h.root] at hcells
  unfold KeysMatch
  rw [h.describes.rowSize, h.describes.primaryKey, hcells, hrows]
  have hmap : ((t.2.contents.map (rowOf σ)).map fun row => row.values[σ.primaryKey]?) =
      (t.2.contents.map fun c => some (Value.integer c.1)) ↔
        ∀ c ∈ t.2.contents, KeyAgrees σ c := by
    rw [List.map_map]
    exact List.map_inj_left
  constructor
  · rintro ⟨cells, rows, hc, hr, heq, -⟩
    cases hc
    cases hr
    exact hmap.mp heq
  · intro hall
    exact ⟨_, _, rfl, rfl, hmap.mpr hall, h.represents.good.ordered.sorted_contents.1⟩

/-! ## A run with an `UPDATE` of the primary key -/

/-- The cells of a table are those that are found along its leaves. -/
theorem Holds.contents_unique {t' : PageTreeAny} (h : Holds s table n σ t)
    (h' : Holds s table n σ t') : t'.2.contents = t.2.contents := by
  have hcells := h.represents.tableCells h.sound
  have hcells' := h'.represents.tableCells h'.sound
  rw [h.root] at hcells
  rw [h'.root, hcells] at hcells'
  exact (Except.ok.inj hcells').symm

/-- The assignment `id = m` passes the check. -/
theorem OneTable.resolveAssignments_id (h : OneTable s notesName notes validNotes t) (m : Int64) :
    resolveAssignments (s.page 0) 0 ([Expr.column (ascii "id")].zip [.literalInt m]) =
      .ok (.ok [(0, .literalInt m)]) := by
  have htype : storedType (s.page 0) 0 0 = ColumnType.columnInteger.toByte :=
    h.holds.describes.storedType (i := 0) (by decide)
  show (catalogNodeFindColumn (s.page 0) 0 (ascii "id") >>= _) = _
  rw [h.findColumn_id]
  show (if typeMatches (storedType (s.page 0) 0 0) (.literalInt m) = true then _ else _) = _
  rw [htype]
  rfl

/-- `UPDATE notes SET id = 2 WHERE id = 2` -/
def keepKey : AstNode :=
  .updateTable notesName [.column (ascii "id")] [.literalInt (rowKey 2)] (idIs (rowKey 2))

/-- The cells of the rows `1` and `2`. -/
theorem mem_twoNotes
    (hc : c ∈ (Tree.leaf 1 [notesCell (rowKey 1), notesCell (rowKey 2)] : PageTree 0).contents) :
    c = notesCell (rowKey 1) ∨ c = notesCell (rowKey 2) := by
  have hmem : c ∈ [notesCell (rowKey 1), notesCell (rowKey 2)] ++ [] := hc
  rw [List.append_nil] at hmem
  exact (List.mem_cons.mp hmem).imp_right List.mem_singleton.mp

/-- It leaves the keys as they are. -/
theorem OneTable.keepsKeys_keepKey (h : OneTable s notesName notes validNotes
    ⟨0, .leaf 1 [notesCell (rowKey 1), notesCell (rowKey 2)]⟩) : KeepsKeys s keepKey := by
  refine ⟨trivial, ?_⟩
  rintro _ _ _ _ ⟨⟩ n hfind as hres σ t hholds c hc hsel last hlast
  rw [h.find] at hfind
  cases hfind
  rw [h.resolveAssignments_id] at hres
  cases hres
  obtain rfl := hholds.describes.unique h.holds.describes
  rw [h.holds.contents_unique hholds] at hc
  have hkey : assignedTo [(0, Expr.literalInt (rowKey 2))] (schemaOf notes validNotes).primaryKey =
      [.literalInt (rowKey 2)] := rfl
  rw [hkey] at hlast
  cases hlast
  -- only the row with that key is selected
  rcases mem_twoNotes hc with rfl | rfl
  · rw [selected_notesCell h.findColumn_id] at hsel
    exact absurd hsel (by decide)
  · rfl

/-- The rows `1` and `2` after that statement. -/
theorem exists_keptKeys (hcreate : ∀ s, ok s (.createTable notesName notes))
    (hinsert : ∀ s key, (AstNode.insert notesName (notesRow key)).CanFinish s →
      ok s (.insert notesName (notesRow key)))
    (hupdate : ∀ s, KeepsKeys s keepKey → ok s keepKey) :
    ∃ s c d, Reachable ok s ∧ OneTable s notesName notes validNotes ⟨0, .leaf 1 [c, d]⟩ := by
  obtain ⟨s₀, h₀, hnum₀, hreach₀⟩ := exists_created notes storable_notesName validNotes (by decide)
  obtain ⟨s₁, hreach₁, h₁, hnum₁⟩ := h₀.insert_next (rowKey 1) (hreach₀ ok hcreate)
    (hinsert _ (rowKey 1)) (matches_notesRow (rowKey 1)) (textsFit_notesRow (rowKey 1)) rfl
    (fun a ha => absurd ha List.not_mem_nil) (by rw [hnum₀]; rfl)
    (by decide : 2 ≤ tablesMaxPages)
  obtain ⟨s₂, hreach₂, h₂⟩ : ∃ s₂, Reachable ok s₂ ∧ OneTable s₂ notesName notes validNotes
      ⟨0, .leaf 1 [notesCell (rowKey 1), notesCell (rowKey 2)]⟩ := by
    obtain ⟨s₂, hreach₂, h₂, -⟩ := h₁.insert_next (rowKey 2) hreach₁ (hinsert _ (rowKey 2))
      (matches_notesRow (rowKey 2)) (textsFit_notesRow (rowKey 2)) rfl
      (fun a ha => by rw [List.mem_singleton.mp ha]; decide) (by rw [hnum₁]; rfl)
      (by decide : 2 ≤ tablesMaxPages)
    exact ⟨s₂, hreach₂, h₂⟩
  have hgood : ∀ f, ∀ c ∈ (Tree.leaf 1 [notesCell (rowKey 1), notesCell (rowKey 2)]
      : PageTree 0).contents, ¬ Faulty (schemaOf notes validNotes) (s₂.page 0) 0
        (idIs (rowKey 2)) f c := by
    intro f c hc
    rcases mem_twoNotes hc with rfl | rfl
    all_goals exact not_faulty_notesCell h₂.findColumn_id _ _ f
  have hlen : [Expr.column (ascii "id")].length = [Expr.literalInt (rowKey 2)].length := rfl
  have hfit : TextsFit [Expr.literalInt (rowKey 2)] :=
    fun text ht => by cases List.mem_singleton.mp ht
  obtain ⟨s, hrun, h⟩ := h₂.update hlen (h₂.resolveAssignments_id (rowKey 2)) hfit
    (idIs (rowKey 2)) hgood
  have hstep : CarriesOut s₂ keepKey s := ⟨⟨by simp [AreColumns], rfl⟩, _, hrun⟩
  exact ⟨s, _, _, hreach₂.tail (hupdate s₂ h₂.keepsKeys_keepKey) hstep, h⟩

/-- **Cell keys and primary keys agree** in every state of a run no `UPDATE` of which assigns a
primary key another value. -/
theorem reachable_keysMatch (h : Reachable KeepsKeys s)
    (hfind : catalogNodeFindTable (s.page 0) name = .ok (some n)) :
    KeysMatch s (openTable s n name) n := by
  obtain ⟨ts, hdb, hall⟩ := h.keysAgree fun _ _ h => h
  obtain ⟨x, hx, hholds⟩ := hdb.holds hfind
  exact hholds.keysMatch_iff.mpr (hall x (List.mem_of_getElem? hx))

/-- Two rows, the key of one of which was assigned the value it has. -/
theorem reachable_keysMatch_notes : ∃ s c d, Reachable KeepsKeys s ∧
    OneTable s notesName notes validNotes ⟨0, .leaf 1 [c, d]⟩ ∧
    KeysMatch s (openTable s 0 notesName) 0 := by
  have hcreate : ∀ s, KeepsKeys s (.createTable notesName notes) :=
    fun s => ⟨trivial, by rintro _ _ _ _ ⟨⟩⟩
  obtain ⟨s, c, d, hreach, h⟩ := exists_keptKeys hcreate
    (fun s key hcan => ⟨hcan, by rintro _ _ _ _ ⟨⟩⟩) fun s h => h
  exact ⟨s, c, d, hreach, h, reachable_keysMatch hreach h.find⟩

/-- The rows `1` and `2` after `UPDATE notes SET id = 7`. -/
theorem exists_sevens : ∃ s c d, Reachable Finishes s ∧
    OneTable s notesName notes validNotes ⟨0, .leaf 1 [c, d]⟩ ∧ c.1 = rowKey 1 ∧ d.1 = rowKey 2 ∧
      (decodeValues (schemaOf notes validNotes).types c.2)[0]? = some (.integer 7) ∧
      (decodeValues (schemaOf notes validNotes).types d.2)[0]? = some (.integer 7) := by
  obtain ⟨s₀, hreach₀, h₀, -⟩ := exists_two
  have hlen : [Expr.column (ascii "id")].length = [Expr.literalInt 7].length := rfl
  have hfit : TextsFit [Expr.literalInt 7] := fun text ht => by cases List.mem_singleton.mp ht
  obtain ⟨s, hrun, h⟩ := h₀.update hlen (h₀.resolveAssignments_id 7) hfit none
    fun f c _ hbad => by cases hbad
  have hstep : CarriesOut s₀
      (.updateTable notesName [.column (ascii "id")] [.literalInt 7] none) s :=
    ⟨⟨by simp [AreColumns], rfl⟩, _, hrun⟩
  have hok : Finishes s₀ (.updateTable notesName [.column (ascii "id")] [.literalInt 7] none) :=
    trivial
  -- what is read of a cell after the update
  have hread : ∀ key, (decodeValues (schemaOf notes validNotes).types (updatedCell
      (schemaOf notes validNotes) (s₀.page 0) 0 none [(0, .literalInt 7)] (notesCell key)).2)[0]? =
        some (.integer 7) := by
    intro key
    have hkey : (decodeValues (schemaOf notes validNotes).types (notesCell key).2)[0]? =
        some (.integer key) := (matches_notesRow key).keyAgrees rfl
    rw [getElem?_decodeValues_updated _ rfl, hkey]
    rfl
  exact ⟨s, _, _, hreach₀.tail hok hstep, h, fst_updatedCell _, fst_updatedCell _,
    hread (rowKey 1), hread (rowKey 2)⟩

/-- Two rows are given the same primary key. -/
theorem not_keysMatch_updated : ∃ s, Reachable Finishes s ∧
    catalogNodeFindTable (s.page 0) notesName = .ok (some 0) ∧
      ¬ KeysMatch s (openTable s 0 notesName) 0 ∧
      ∃ rows, tableRows s (openTable s 0 notesName) (catalogNodeRowSize (s.page 0) 0) = .ok rows ∧
        rows.map (fun row => row.values[catalogNodePrimaryKeyColumn (s.page 0) 0]?) =
          [some (.integer 7), some (.integer 7)] := by
  obtain ⟨s, c, d, hreach, h, hc, -, hc7, hd7⟩ := exists_sevens
  refine ⟨s, hreach, h.find, ?_, ?_⟩
  · intro hmatch
    have hagree := h.holds.keysMatch_iff.mp hmatch c (mem_contents.mpr
      ⟨_, List.mem_singleton_self _, List.mem_cons_self⟩)
    rw [KeyAgrees, hc] at hagree
    exact absurd (hc7.symm.trans hagree) (by decide)
  · rw [h.holds.describes.rowSize, h.holds.describes.primaryKey]
    exact ⟨_, h.holds.tableRows, congrArg₂ (fun a b => [a, b]) hc7 hd7⟩

end MiniDB
